import Rcsce.ControlPlane.ScanPipeline
import Rcsce.Lib.SortedJoin

/-!
# Which images share a cache key

`build_layer_hash` joins the name of an image and a digest with a colon and hashes the text.
Names and digests may contain colons, so two pairs can give one text: a part of the name of the
one image is then in the digest of the other (`Shifted`).

* `buildLayerHash_eq_iff`: when two keys are equal.
* `distinct_images_distinct_keys_iff`: the pairs that are told apart, for any two pairs, for the
  keys of start events and for the names that stand in for their own digests.
-/

namespace Rcsce

/-- The other image goes on with a colon where this one ends, and what follows is in the digest
of this one. -/
def Shifted (imageName layerDigest imageName' layerDigest' : String) : Prop :=
  ∃ rest, imageName' = imageName ++ ":" ++ rest ∧ layerDigest = rest ++ ":" ++ layerDigest'

/-- The two texts are told apart, whichever is taken first. -/
def Separated (imageName layerDigest imageName' layerDigest' : String) : Prop :=
  ¬ Shifted imageName layerDigest imageName' layerDigest' ∧
    ¬ Shifted imageName' layerDigest' imageName layerDigest

theorem eq_append_colon_iff {s t u : String} :
    s = t ++ ":" ++ u ↔ s.toList = t.toList ++ ':' :: u.toList := by
  rw [← String.toList_inj, String.toList_append, String.toList_append, List.append_assoc]
  rfl

theorem shifted_iff {i d i' d' : String} :
    Shifted i d i' d' ↔
      ∃ r, i'.toList = i.toList ++ ':' :: r ∧ d.toList = r ++ ':' :: d'.toList := by
  constructor
  · rintro ⟨rest, hi, hd⟩
    exact ⟨rest.toList, eq_append_colon_iff.mp hi, eq_append_colon_iff.mp hd⟩
  · rintro ⟨r, hi, hd⟩
    refine ⟨String.ofList r, eq_append_colon_iff.mpr ?_, eq_append_colon_iff.mpr ?_⟩
    · rw [String.toList_ofList, hi]
    · rw [String.toList_ofList, hd]

/-- The other name is longer. -/
theorem Shifted.length_lt {i d i' d' : String} (h : Shifted i d i' d') :
    i.toList.length < i'.toList.length := by
  obtain ⟨r, hi, -⟩ := shifted_iff.mp h
  rw [hi, List.length_append, List.length_cons]
  omega

/-- A name that stands in for its digest is not shifted against another one. -/
theorem not_shifted_self {i i' : String} : ¬ Shifted i i i' i' := by
  intro h
  have hlt := h.length_lt
  obtain ⟨r, -, hd⟩ := shifted_iff.mp h
  rw [hd, List.length_append, List.length_cons] at hlt
  omega

section Keys

variable {sha256Text : String → String} (hsha : Function.Injective sha256Text)

include hsha

/-- **When two keys are equal.** -/
theorem buildLayerHash_eq_iff {i d i' d' : String} :
    buildLayerHash sha256Text i d = buildLayerHash sha256Text i' d' ↔
      (i = i' ∧ d = d') ∨ Shifted i d i' d' ∨ Shifted i' d' i d := by
  rw [buildLayerHash, buildLayerHash, hsha.eq_iff, eq_append_colon_iff, String.toList_append,
    String.toList_append, List.append_assoc]
  show i.toList ++ ':' :: d.toList = i'.toList ++ ':' :: d'.toList ↔ _
  rw [append_cons_eq_iff, String.toList_inj, String.toList_inj, shifted_iff, shifted_iff]

theorem key_determines_iff (i d i' d' : String) :
    (buildLayerHash sha256Text i d = buildLayerHash sha256Text i' d' → i = i' ∧ d = d') ↔
      Separated i d i' d' := by
  rw [buildLayerHash_eq_iff hsha]
  constructor
  · intro h
    constructor
    · intro hshifted
      have hlt := hshifted.length_lt
      rw [(h (Or.inr (Or.inl hshifted))).1] at hlt
      exact lt_irrefl _ hlt
    · intro hshifted
      have hlt := hshifted.length_lt
      rw [(h (Or.inr (Or.inr hshifted))).1] at hlt
      exact lt_irrefl _ hlt
  · rintro ⟨hright, hleft⟩ (heq | hshifted | hshifted)
    · exact heq
    · exact absurd hshifted hright
    · exact absurd hshifted hleft

/-- Names that stand in for their own digests have keys of their own. -/
theorem key_determines_name {i i' : String}
    (h : buildLayerHash sha256Text i i = buildLayerHash sha256Text i' i') : i = i' :=
  ((key_determines_iff hsha i i i' i').mpr ⟨not_shifted_self, not_shifted_self⟩ h).1

end Keys

/-- **Which images share a key.**  Suppose that the hash has no collisions.  Equal keys belong to
equal images and digests if and only if neither name goes on with a colon where the other ends,
with what follows in the digest of that other.  So it is for the keys of two start events; when
neither has a digest, or two jobs have no `image_id`, equal keys do belong to equal names. -/
theorem distinct_images_distinct_keys_iff (sha256Text : String → String)
    (hsha : Function.Injective sha256Text) :
    (∀ i d i' d',
      (buildLayerHash sha256Text i d = buildLayerHash sha256Text i' d' → i = i' ∧ d = d') ↔
        Separated i d i' d') ∧
      (∀ e e' : DockerEvent, (e.layerHash sha256Text = e'.layerHash sha256Text →
          e.imageName = e'.imageName ∧ e.layerDigest = e'.layerDigest) ↔
        Separated e.imageName e.layerDigest e'.imageName e'.layerDigest) ∧
      (∀ e e' : DockerEvent, e.digest = none → e'.digest = none →
        e.layerHash sha256Text = e'.layerHash sha256Text → e.imageName = e'.imageName) ∧
      ∀ job job' : Job, job.imageId = "" → job'.imageId = "" →
        runLayerHash sha256Text job = runLayerHash sha256Text job' →
          job.imageName = job'.imageName := by
  refine ⟨key_determines_iff hsha, fun e e' => key_determines_iff hsha _ _ _ _, ?_, ?_⟩
  · intro e e' hnone hnone' h
    rw [DockerEvent.layerHash, DockerEvent.layerHash, DockerEvent.layerDigest,
      DockerEvent.layerDigest, hnone, hnone'] at h
    exact key_determines_name hsha h
  · intro job job' hid hid' h
    rw [runLayerHash, runLayerHash, if_neg (not_not.mpr hid), if_neg (not_not.mpr hid')] at h
    exact key_determines_name hsha h

/-- A hash without collisions that is the SHA-256 of one text. -/
def sha256At (text digest : String) : String → String := Equiv.swap text digest

theorem sha256At_injective (text digest : String) : Function.Injective (sha256At text digest) :=
  (Equiv.swap text digest).injective

theorem distinct_images_distinct_keys_nginx :
    (buildLayerHash (sha256At "nginx:sha256:abc"
        "3682396acf24d854b9e661a456aa75ca8be89dddeee395343e62a1318e9a7ab7") "nginx" "sha256:abc" =
      buildLayerHash (sha256At "nginx:sha256:abc"
        "3682396acf24d854b9e661a456aa75ca8be89dddeee395343e62a1318e9a7ab7") "nginx:sha256" "abc" →
      "nginx" = "nginx:sha256" ∧ "sha256:abc" = "abc") ↔
    Separated "nginx" "sha256:abc" "nginx:sha256" "abc" :=
  (distinct_images_distinct_keys_iff _ (sha256At_injective _ _)).1 _ _ _ _

/-- Two images share a key under every hash, without collisions or not. -/
theorem nginx_shares_key :
    (∀ sha256Text : String → String, buildLayerHash sha256Text "nginx" "sha256:abc" =
      buildLayerHash sha256Text "nginx:sha256" "abc") ∧
    ¬ ∀ sha256Text : String → String, Function.Injective sha256Text → ∀ i d i' d',
      buildLayerHash sha256Text i d = buildLayerHash sha256Text i' d' → i = i' ∧ d = d' := by
  have hshares : ∀ sha256Text : String → String,
      buildLayerHash sha256Text "nginx" "sha256:abc" =
        buildLayerHash sha256Text "nginx:sha256" "abc" := fun _ => rfl
  refine ⟨hshares, fun h => ?_⟩
  have heq := h id Function.injective_id "nginx" "sha256:abc" "nginx:sha256" "abc" (hshares id)
  exact absurd heq.1 (by decide)

end Rcsce
