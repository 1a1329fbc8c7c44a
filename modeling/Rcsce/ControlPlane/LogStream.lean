import Rcsce.Lib.Utf8
import Rcsce.Lib.PyText
import Rcsce.ControlPlane.LogMonitor
import Rcsce.ControlPlane.AuditMirror

/-!
# What the log monitor reports

The loop of `_stream_logs` over the chunks that Docker delivers, down to the bytes.  A chunk
is decoded, stripped and lowered as if it were one line of the log, and at most one anomaly
is reported for it.

## The result

Chunks that are whole lines are reported rightly (`streamLogs_wholeLines`).  But which
chunks arrive is up to Docker, and no log with a line to report is safe from it: byte by
byte, nothing is ever found.  `chunking_irrelevant_iff` is exact: all ways of cutting a log
give the same report, and the right one, if and only if no line of it has a keyword.
-/

namespace Rcsce

open Utf8 PyText

/-- `CRITICAL_KEYWORDS`. -/
def criticalKeywords : List String :=
  ["error", "fatal", "exception", "traceback", "unauthorized", "failed password",
    "access denied", "segmentation fault"]

namespace StreamTask

variable (m : CaseMapping) (t : StreamTask)

/-- The keyword at which the loop over `CRITICAL_KEYWORDS` breaks. -/
def firstKeyword (text : List Char) : Option String :=
  criticalKeywords.find? fun k => k.toList <:+: m.lower text

/-- The anomaly of a keyword in a line of the container. -/
def anomaly (keyword : String) (line : List Char) : Anomaly :=
  ⟨t.containerId, t.containerName, t.imageName, keyword, String.ofList line⟩

/-- A round of the loop of `_stream_logs`. -/
def scanChunk (chunk : List UInt8) : Option Anomaly :=
  let line := strip (decodeIgnore chunk)
  if line = [] then none else (firstKeyword m line).map fun keyword => t.anomaly keyword line

/-- The anomalies that `_stream_logs` reports for the chunks of a stream. -/
def streamLogs (chunks : List (List UInt8)) : List Anomaly := chunks.filterMap (scanChunk m t)

/-! ## The lines of the log -/

/-- The lines of a log. -/
def logLines (log : List UInt8) : List (List UInt8) := log.splitOn 10

/-- The line contains a keyword, in whichever case. -/
def HasKeyword (line : List UInt8) : Prop :=
  ∃ k ∈ criticalKeywords, k.toList <:+: m.lower (decodeIgnore line)

/-- The anomaly that a line stands for. -/
def lineAnomaly (line : List UInt8) : Option Anomaly :=
  (firstKeyword m (decodeIgnore line)).map fun keyword =>
    t.anomaly keyword (strip (decodeIgnore line))

/-- One anomaly per line that contains a keyword. -/
def lineAnomalies (log : List UInt8) : List Anomaly := (logLines log).filterMap (lineAnomaly m t)

/-- The chunks are a way of cutting the log. -/
structure Splits (log : List UInt8) (chunks : List (List UInt8)) : Prop where
  flatten : chunks.flatten = log
  nonempty : ∀ chunk ∈ chunks, chunk ≠ []

/-- Every chunk is a line with its line break; the last one may have none. -/
inductive WholeLines : List (List UInt8) → Prop
  | nil : WholeLines []
  | last (line : List UInt8) (hline : 10 ∉ line) : WholeLines [line]
  | cons (line : List UInt8) (rest : List (List UInt8)) (hline : 10 ∉ line)
      (hrest : WholeLines rest) : WholeLines ((line ++ [10]) :: rest)

/-- Any two ways of cutting the log are reported alike, namely line by line. -/
def ChunkingIrrelevant (log : List UInt8) : Prop :=
  ∀ chunks chunks', Splits log chunks → Splits log chunks' →
    (streamLogs m t chunks).map Anomaly.entry = (streamLogs m t chunks').map Anomaly.entry ∧
    (streamLogs m t chunks).map Anomaly.entry = (lineAnomalies m t log).map Anomaly.entry

/-! ## Keywords -/

variable {m t}

theorem needle_of_mem {k : String} (hk : k ∈ criticalKeywords) : Needle k.toList := by
  have hall : ∀ k ∈ criticalKeywords, Needle k.toList := by decide
  exact hall k hk

theorem le_length_of_mem {k : String} (hk : k ∈ criticalKeywords) : 5 ≤ k.toList.length := by
  have hall : ∀ k ∈ criticalKeywords, 5 ≤ k.toList.length := by decide
  exact hall k hk

theorem firstKeyword_eq_none_iff {text : List Char} :
    firstKeyword m text = none ↔ ∀ k ∈ criticalKeywords, ¬ k.toList <:+: m.lower text := by
  rw [firstKeyword, List.find?_eq_none]
  simp only [decide_eq_true_eq]

/-- The keywords that are found are those of the text as it is. -/
theorem firstKeyword_strip (text : List Char) :
    firstKeyword m (strip text) = firstKeyword m text := by
  refine List.find?_congr fun k hk => ?_
  exact decide_eq_decide.mpr ((needle_of_mem hk).infix_lower_strip_iff m text)

/-- A text of a keyword is longer than nothing. -/
theorem firstKeyword_nil : firstKeyword m [] = none := by
  refine firstKeyword_eq_none_iff.mpr fun k hk h => ?_
  have hle := (needle_of_mem hk).length_le_of_infix_lower m h
  have hlen := le_length_of_mem hk
  rw [List.length_nil] at hle
  omega

/-- A round reports the first keyword of the decoded chunk. -/
theorem scanChunk_eq (chunk : List UInt8) : scanChunk m t chunk = lineAnomaly m t chunk := by
  rw [scanChunk, lineAnomaly, ← firstKeyword_strip (decodeIgnore chunk)]
  split_ifs with hempty
  · rw [hempty, firstKeyword_nil, Option.map_none]
  · rfl

theorem lineAnomaly_eq_none_iff {line : List UInt8} :
    lineAnomaly m t line = none ↔ ¬ HasKeyword m line := by
  rw [lineAnomaly, Option.map_eq_none_iff, firstKeyword_eq_none_iff, HasKeyword]
  simp only [not_exists, not_and]

/-! ## Chunks that are lines -/

/-- The line break is stripped with the white space. -/
theorem lineAnomaly_append_newline (line : List UInt8) :
    lineAnomaly m t (line ++ [10]) = lineAnomaly m t line := by
  have hdecode : decodeIgnore (line ++ [10]) = decodeIgnore line ++ ['\n'] :=
    decodeIgnore_append_of_ascii line [] (by decide)
  rw [lineAnomaly, lineAnomaly, ← firstKeyword_strip, hdecode,
    strip_append_space _ (by decide), firstKeyword_strip]

/-- **Whole lines** are reported rightly. -/
theorem streamLogs_wholeLines {chunks : List (List UInt8)} (h : WholeLines chunks) :
    streamLogs m t chunks = lineAnomalies m t chunks.flatten := by
  have hscan : scanChunk m t = lineAnomaly m t := funext scanChunk_eq
  rw [streamLogs, lineAnomalies, hscan]
  induction h with
  | nil =>
    have hnone : lineAnomaly m t [] = none := by
      rw [lineAnomaly]
      exact Option.map_eq_none_iff.mpr firstKeyword_nil
    rw [List.flatten_nil, logLines, List.splitOn_nil, List.filterMap_cons_none hnone]
  | last line hline =>
    rw [List.flatten_singleton, logLines, List.splitOn_eq_singleton hline]
  | cons line rest hline hrest ih =>
    have hlines : logLines ((line ++ [10]) :: rest).flatten = line :: logLines rest.flatten := by
      rw [List.flatten_cons, List.append_assoc, List.singleton_append]
      exact List.splitOn_append_cons_self_of_not_mem hline _
    rw [hlines, List.filterMap_cons, List.filterMap_cons, lineAnomaly_append_newline, ih]

/-! ## Chunks that are not -/

/-- What the log contains, a line contains: no keyword goes across a line break. -/
theorem exists_line_of_infix {k : String} (hk : k ∈ criticalKeywords) (log : List UInt8)
    (h : k.toList <:+: m.lower (decodeIgnore log)) : ∃ line ∈ logLines log, HasKeyword m line := by
  induction hn : log.length using Nat.strong_induction_on generalizing log with
  | _ n ih =>
    by_cases hbreak : (10 : UInt8) ∈ log
    · obtain ⟨line, rest, rfl, hline⟩ := List.eq_append_cons_of_mem hbreak
      have hlines : logLines (line ++ 10 :: rest) = line :: logLines rest :=
        List.splitOn_append_cons_self_of_not_mem hline _
      rw [hlines]
      rw [decodeIgnore_append_of_ascii line rest (by decide)] at h
      rcases (needle_of_mem hk).infix_lower_newline m h with hleft | hright
      · exact ⟨line, List.mem_cons_self, k, hk, hleft⟩
      · have hlt : rest.length < n := by
          rw [← hn, List.length_append, List.length_cons]
          omega
        obtain ⟨line', hmem, hline'⟩ := ih _ hlt rest hright rfl
        exact ⟨line', List.mem_cons_of_mem _ hmem, hline'⟩
    · have hlines : logLines log = [log] := List.splitOn_eq_singleton hbreak
      rw [hlines]
      exact ⟨log, List.mem_singleton_self _, k, hk, h⟩

/-- What a chunk contains, a line contains. -/
theorem hasKeyword_line_of_chunk {log : List UInt8} {chunks : List (List UInt8)}
    (hsplits : Splits log chunks) {chunk : List UInt8} (hchunk : chunk ∈ chunks)
    (h : HasKeyword m chunk) : ∃ line ∈ logLines log, HasKeyword m line := by
  obtain ⟨k, hk, hinfix⟩ := h
  obtain ⟨before, after, hchunks⟩ := List.append_of_mem hchunk
  have hneedle := needle_of_mem hk
  have hflatten : log = before.flatten ++ chunk ++ after.flatten := by
    rw [← hsplits.flatten, hchunks, List.flatten_append, List.flatten_cons, List.append_assoc]
  refine exists_line_of_infix hk log ?_
  refine hneedle.infix_lower_mono m ?_ hinfix
  rw [hflatten]
  exact decodeIgnore_infix _ _ _

/-- A single byte contains no keyword. -/
theorem not_hasKeyword_singleton (b : UInt8) : ¬ HasKeyword m [b] := by
  rintro ⟨k, hk, h⟩
  have hle := (needle_of_mem hk).length_le_of_infix_lower m h
  have hlen := le_length_of_mem hk
  have hone := length_decodeIgnore_le [b]
  rw [List.length_singleton] at hone
  omega

/-- Nothing is reported exactly when no chunk contains a keyword. -/
theorem streamLogs_eq_nil_iff {chunks : List (List UInt8)} :
    streamLogs m t chunks = [] ↔ ∀ chunk ∈ chunks, ¬ HasKeyword m chunk := by
  rw [streamLogs, List.filterMap_eq_nil_iff]
  simp only [scanChunk_eq, lineAnomaly_eq_none_iff]

theorem lineAnomalies_eq_nil_iff {log : List UInt8} :
    lineAnomalies m t log = [] ↔ ∀ line ∈ logLines log, ¬ HasKeyword m line := by
  rw [lineAnomalies, List.filterMap_eq_nil_iff]
  simp only [lineAnomaly_eq_none_iff]

/-- Byte by byte, nothing is reported. -/
theorem splits_singletons (log : List UInt8) : Splits log (log.map fun b => [b]) where
  flatten := by rw [← List.flatMap_def, List.flatMap_singleton']
  nonempty := by
    intro chunk hchunk
    obtain ⟨b, -, rfl⟩ := List.mem_map.mp hchunk
    exact List.cons_ne_nil b []

/-- **When anomaly detection does not depend on the chunks.**  All ways of cutting a log are
reported alike, and line by line, if and only if no line of it contains a keyword.  Of the
logs with such lines, those that arrive in whole lines are reported rightly. -/
theorem chunking_irrelevant_iff (m : CaseMapping) (t : StreamTask) (log : List UInt8) :
    (ChunkingIrrelevant m t log ↔ ∀ line ∈ logLines log, ¬ HasKeyword m line) ∧
      ∀ chunks, WholeLines chunks → chunks.flatten = log →
        streamLogs m t chunks = lineAnomalies m t log := by
  refine ⟨⟨fun h => ?_, fun h chunks chunks' hchunks hchunks' => ?_⟩, ?_⟩
  · have hbytes := splits_singletons log
    have hnone : streamLogs m t (log.map fun b => [b]) = [] := by
      refine streamLogs_eq_nil_iff.mpr fun chunk hchunk => ?_
      obtain ⟨b, -, rfl⟩ := List.mem_map.mp hchunk
      exact not_hasKeyword_singleton b
    have hreport := (h _ _ hbytes hbytes).2
    rw [hnone, List.map_nil] at hreport
    exact lineAnomalies_eq_nil_iff.mp (List.map_eq_nil_iff.mp hreport.symm)
  · have hnone : ∀ chunks, Splits log chunks → streamLogs m t chunks = [] := by
      intro chunks hsplits
      refine streamLogs_eq_nil_iff.mpr fun chunk hchunk hkeyword => ?_
      obtain ⟨line, hline, hcritical⟩ := hasKeyword_line_of_chunk hsplits hchunk hkeyword
      exact h line hline hcritical
    rw [hnone chunks hchunks, hnone chunks' hchunks', (lineAnomalies_eq_nil_iff (t := t)).mpr h]
    exact ⟨rfl, rfl⟩
  · rintro chunks hlines rfl
    exact streamLogs_wholeLines hlines

/-- The case of the letters of ASCII. -/
def asciiCase : CaseMapping where
  lowerChar c := [c.toLower]
  finalSigma _ _ := false
  length_lowerChar _ := by rw [List.length_singleton]; decide
  lowerChar_of_isSpace c h := by
    have hupper : ¬ ('A'.val ≤ c.val ∧ c.val ≤ 'Z'.val) := by
      rintro ⟨hlow, hhigh⟩
      rw [UInt32.le_iff_toNat_le] at hlow hhigh
      have hlow' : 65 ≤ c.toNat := hlow
      have hhigh' : c.toNat ≤ 90 := hhigh
      simp only [PyText.isSpace, Bool.or_eq_true, Bool.and_eq_true, decide_eq_true_eq] at h
      omega
    rw [Char.toLower, dif_neg hupper]

/-- The line `Error` in one chunk is reported, and in two chunks it is not. -/
theorem cut_keyword_unreported :
    let t : StreamTask := ⟨"c1", "web", "nginx", .streaming, false⟩
    let log : List UInt8 := [69, 114, 114, 111, 114, 10]
    Splits log [[69, 114, 114], [111, 114, 10]] ∧ Splits log [log] ∧
      (streamLogs asciiCase t [[69, 114, 114], [111, 114, 10]]).length = 0 ∧
      (streamLogs asciiCase t [log]).length = 1 ∧ ¬ ChunkingIrrelevant asciiCase t log := by
  intro t log
  have hcut : Splits log [[69, 114, 114], [111, 114, 10]] := ⟨rfl, by decide⟩
  have hwhole : Splits log [log] := ⟨rfl, by decide⟩
  have hnone : (streamLogs asciiCase t [[69, 114, 114], [111, 114, 10]]).length = 0 := by
    decide +kernel
  have hone : (streamLogs asciiCase t [log]).length = 1 := by decide +kernel
  refine ⟨hcut, hwhole, hnone, hone, fun h => ?_⟩
  have hlength := congrArg List.length (h _ _ hcut hwhole).1
  rw [List.length_map, List.length_map, hnone, hone] at hlength
  cases hlength

/-- Two lines to report in one chunk are reported as one. -/
theorem merged_lines_reported_once :
    let t : StreamTask := ⟨"c1", "web", "nginx", .streaming, false⟩
    let log : List UInt8 := [102, 97, 116, 97, 108, 10, 69, 114, 114, 111, 114, 10]
    (streamLogs asciiCase t [log]).length = 1 ∧ (lineAnomalies asciiCase t log).length = 2 := by
  refine ⟨?_, ?_⟩
  · decide +kernel
  · decide +kernel

end StreamTask
end Rcsce
