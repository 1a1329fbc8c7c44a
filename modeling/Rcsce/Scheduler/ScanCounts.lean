import Rcsce.Lib.Reading
import Rcsce.Scheduler.WorkerNode

/-!
# The counts of a scan are those of its report

`process_job` goes through the report of Trivy in two nested loops, and each round may raise: on
a result or a vulnerability that is no object, on `Vulnerabilities` that cannot be gone through,
on a severity that is an array or an object.  What has been counted by then stays counted and is
reported.

* `readReport` is what the loops read of a report: the severities, in order, up to the first
  thing that cannot be read.
* `countReport_follows`: the loops count exactly these.
* `scan_tallies`: so each count in the result of a scan is how often its severity was read,
  whatever Trivy did, and a report that is readable throughout is counted as a whole.
-/

namespace Rcsce

/-! ## What a report says -/

/-- The severity of a vulnerability. -/
def readVuln (vuln : Json) : Reading Json :=
  match vuln.getD "Severity" (.str "UNKNOWN") with
  | .ok sev => if sev.hashable then .one sev else .stopped
  | .error _ => .stopped

/-- The severities of a result. -/
def readResult (result : Json) : Reading Json :=
  match result.getD "Vulnerabilities" .null with
  | .error _ => .stopped
  | .ok value =>
    match if value.truthy then value.iter else .ok [] with
    | .error _ => .stopped
    | .ok vulns => .all readVuln vulns

/-- The severities of a report, as far as it can be read. -/
def readReport (scanData : Json) : Reading Json :=
  match scanData.getD "Results" (.arr []) with
  | .error _ => .stopped
  | .ok value =>
    match value.iter with
    | .error _ => .stopped
    | .ok results => .all readResult results

/-- How often the severity was read. -/
def occurrences (severity : String) (severities : List Json) : ℕ :=
  (severities.filterMap Json.str?).count severity

/-- The counts of these severities. -/
def VulnCounts.tally (severities : List Json) : VulnCounts where
  critical := occurrences "CRITICAL" severities
  high := occurrences "HIGH" severities
  medium := occurrences "MEDIUM" severities
  low := occurrences "LOW" severities

/-! ## What the loops count -/

theorem countVuln_follows (vuln : Json) :
    PyM.Follows (countVuln vuln) VulnCounts.count (readVuln vuln) := by
  rw [countVuln, readVuln]
  cases vuln.getD "Severity" (.str "UNKNOWN") with
  | error e => exact PyM.follows_error e
  | ok sev =>
    refine PyM.follows_ok ?_
    dsimp only
    split_ifs
    · exact PyM.follows_modify sev
    · exact PyM.follows_throw .typeError

theorem countResult_follows (result : Json) :
    PyM.Follows (countResult result) VulnCounts.count (readResult result) := by
  rw [countResult, readResult]
  cases result.getD "Vulnerabilities" .null with
  | error e => exact PyM.follows_error e
  | ok value =>
    refine PyM.follows_ok ?_
    dsimp only
    cases if value.truthy then value.iter else .ok [] with
    | error e => exact PyM.follows_error e
    | ok vulns => exact PyM.follows_ok (PyM.follows_forM countVuln_follows vulns)

/-- The loops count what they read. -/
theorem countReport_follows (scanData : Json) :
    PyM.Follows (countReport scanData) VulnCounts.count (readReport scanData) := by
  rw [countReport, readReport]
  cases scanData.getD "Results" (.arr []) with
  | error e => exact PyM.follows_error e
  | ok value =>
    refine PyM.follows_ok ?_
    dsimp only
    cases value.iter with
    | error e => exact PyM.follows_error e
    | ok results => exact PyM.follows_ok (PyM.follows_forM countResult_follows results)

theorem occurrences_cons (severity : String) (sev : Json) (severities : List Json) :
    occurrences severity (sev :: severities) =
      occurrences severity [sev] + occurrences severity severities := by
  rw [occurrences, ← List.singleton_append, List.filterMap_append, List.count_append]
  rfl

/-- Counting one severity. -/
theorem count_eq (c : VulnCounts) (sev : Json) :
    c.count sev =
      ⟨c.critical + occurrences "CRITICAL" [sev], c.high + occurrences "HIGH" [sev],
        c.medium + occurrences "MEDIUM" [sev], c.low + occurrences "LOW" [sev]⟩ := by
  cases sev with
  | str s =>
    by_cases hcritical : s = "CRITICAL"
    · subst hcritical
      rfl
    by_cases hhigh : s = "HIGH"
    · subst hhigh
      rfl
    by_cases hmedium : s = "MEDIUM"
    · subst hmedium
      rfl
    by_cases hlow : s = "LOW"
    · subst hlow
      rfl
    -- no other text is counted
    have hnone : ∀ severity, s ≠ severity → occurrences severity [.str s] = 0 := fun _ hne =>
      List.count_eq_zero.mpr fun hmem => hne (List.mem_singleton.mp hmem).symm
    rw [hnone _ hcritical, hnone _ hhigh, hnone _ hmedium, hnone _ hlow]
    simp [VulnCounts.count, hcritical, hhigh, hmedium, hlow]
  | _ => rfl

/-- Counting one severity after the other. -/
theorem foldl_count (severities : List Json) (c : VulnCounts) :
    severities.foldl VulnCounts.count c =
      ⟨c.critical + occurrences "CRITICAL" severities, c.high + occurrences "HIGH" severities,
        c.medium + occurrences "MEDIUM" severities, c.low + occurrences "LOW" severities⟩ := by
  induction severities generalizing c with
  | nil => rfl
  | cons sev severities ih =>
    rw [List.foldl_cons, ih, count_eq]
    simp only [occurrences_cons _ sev severities, Nat.add_assoc]

/-- So the variables hold the tally of what was read, whether the loops end or raise. -/
theorem countReport_counts (scanData : Json) :
    (PyM.exec (countReport scanData) .zero).2 = .tally (readReport scanData).read := by
  rw [(countReport_follows scanData .zero).1, foldl_count]
  simp [VulnCounts.zero, VulnCounts.tally]

/-! ## Scans -/

/-- What a scan reads: its report, if Trivy exits with 0 and one. -/
def TrivyRun.reading : TrivyRun → Reading Json
  | .exits 0 (.text (.dumps scanData)) => readReport scanData
  | _ => .stopped

/-- The elements of a value that can be gone through. -/
def elements (value : Except PyError Json) : List Json := ((value.bind Json.iter).toOption).getD []

/-- The severities of all vulnerabilities of a report. -/
def findings (scanData : Json) : List Json :=
  (elements (scanData.getD "Results" (.arr []))).flatMap fun result =>
    (elements (result.getD "Vulnerabilities" .null)).flatMap fun vuln =>
      (vuln.getD "Severity" (.str "UNKNOWN")).toOption.toList

theorem readVuln_of_readable {vuln : Json} (h : ReadableVuln vuln) :
    readVuln vuln = ⟨(vuln.getD "Severity" (.str "UNKNOWN")).toOption.toList, true⟩ := by
  obtain ⟨sev, hsev, hhash⟩ := h
  rw [readVuln, hsev]
  simp only [hhash, if_true]
  rfl

/-- A list of which every element is read to its end. -/
theorem all_of_readable {f : Json → Reading Json} {g : Json → List Json} {l : List Json}
    (h : ∀ value ∈ l, f value = ⟨g value, true⟩) : Reading.all f l = ⟨l.flatMap g, true⟩ := by
  rw [Reading.all_of_complete fun value hvalue => by rw [h value hvalue]]
  rw [List.flatMap_congr fun value hvalue => congrArg Reading.read (h value hvalue)]

theorem readResult_of_readable {result : Json} (h : ReadableResult result) :
    readResult result = ⟨(elements (result.getD "Vulnerabilities" .null)).flatMap fun vuln =>
      (vuln.getD "Severity" (.str "UNKNOWN")).toOption.toList, true⟩ := by
  obtain ⟨value, hvalue, hvulns⟩ := h
  rw [readResult, hvalue]
  dsimp only
  by_cases htruthy : value.truthy = true
  · obtain ⟨vulns, hiter, hreadable⟩ := hvulns htruthy
    have helements : elements (.ok value) = vulns := by
      rw [elements, Except.bind, hiter]
      rfl
    rw [if_pos htruthy, hiter, helements]
    exact all_of_readable fun vuln hvuln => readVuln_of_readable (hreadable vuln hvuln)
  · have hempty : elements (.ok value) = [] := by
      cases value with
      | str s =>
        have hs : s = "" := by simpa [Json.truthy] using htruthy
        subst hs
        rfl
      | arr elems =>
        have helems : elems = [] := by simpa [Json.truthy] using htruthy
        subst helems
        rfl
      | obj members =>
        have hmembers : members = [] := by simpa [Json.truthy] using htruthy
        subst hmembers
        rfl
      | _ => rfl
    rw [if_neg htruthy, hempty]
    rfl

/-- A report that is readable throughout is read as a whole. -/
theorem readReport_of_readable {scanData : Json} (h : ReadableReport scanData) :
    readReport scanData = ⟨findings scanData, true⟩ := by
  obtain ⟨value, hvalue, results, hiter, hreadable⟩ := h
  have helements : elements (.ok value) = results := by
    rw [elements, Except.bind, hiter]
    rfl
  rw [readReport, findings, hvalue, helements]
  dsimp only
  rw [hiter]
  exact all_of_readable fun result hresult => readResult_of_readable (hreadable result hresult)

/-- The scan that goes through a report. -/
theorem scan_of_report (scanData : Json) :
    (TrivyRun.exits 0 (.text (.dumps scanData))).scan =
      (if (readReport scanData).complete then .scanComplete else .scanFailed,
        .tally (readReport scanData).read) := by
  have hcounts := countReport_counts scanData
  have hcompletes := (countReport_follows scanData .zero).2
  rw [TrivyRun.scan, if_pos ⟨rfl, rfl⟩]
  simp only [JsonText.loads_dumps]
  rcases hloop : PyM.exec (countReport scanData) .zero with ⟨⟨e⟩ | ⟨u⟩, counts⟩
  · have hstopped : (readReport scanData).complete ≠ true := by
      intro hcomplete
      obtain ⟨a, ha⟩ := hcompletes.mpr hcomplete
      rw [hloop] at ha
      cases ha
    rw [hloop] at hcounts
    rw [if_neg hstopped]
    exact congrArg (Prod.mk ScanStatus.scanFailed) hcounts
  · have hcomplete : (readReport scanData).complete = true :=
      hcompletes.mp ⟨u, by rw [hloop]⟩
    rw [hloop] at hcounts
    rw [if_pos hcomplete]
    exact congrArg (Prod.mk ScanStatus.scanComplete) hcounts

/-- A scan that has no report to go through counts nothing. -/
theorem scan_without_report {run : TrivyRun} (hmock : ∀ mock, run ≠ .notFound mock)
    (h : ∀ scanData, run ≠ .exits 0 (.text (.dumps scanData))) :
    run.reading = .stopped ∧ run.scan.2 = .zero ∧ run.scan.1 ≠ .scanComplete := by
  cases run with
  | notFound mock => exact absurd rfl (hmock mock)
  | timesOut | raises => exact ⟨rfl, rfl, by rintro ⟨⟩⟩
  | exits returncode stdout =>
    by_cases hzero : returncode = 0
    · subst hzero
      rcases stdout with ⟨_ | text⟩ | _
      · exact absurd rfl (h _)
      · refine ⟨rfl, ?_⟩
        simp only [TrivyRun.scan, JsonText.loads]
        split_ifs <;> exact ⟨rfl, by rintro ⟨⟩⟩
      · exact ⟨rfl, rfl, by rintro ⟨⟩⟩
    · have hscan : (TrivyRun.exits returncode stdout).scan = (.scanFailed, .zero) := by
        simp only [TrivyRun.scan, hzero, false_and, if_false]
      rw [hscan]
      refine ⟨?_, rfl, by rintro ⟨⟩⟩
      unfold TrivyRun.reading
      split
      · rename_i heq
        cases heq
        exact absurd rfl hzero
      · rfl

/-- **The counts of a scan.**  Unless the scan is mocked: each count in the result is the number
of times that its severity was read from the report, before the end or before the first thing in
it that cannot be read; the status is `scan_complete` if and only if the end was reached; and if
the report is readable throughout, everything in it was read. -/
theorem scan_tallies (run : TrivyRun) (hmock : ∀ mock, run ≠ .notFound mock) :
    run.scan.2 = .tally run.reading.read ∧
      (run.scan.1 = .scanComplete ↔ run.reading.complete = true) ∧
      ∀ scanData, run = .exits 0 (.text (.dumps scanData)) → ReadableReport scanData →
        run.reading = ⟨findings scanData, true⟩ := by
  by_cases hreport : ∃ scanData, run = .exits 0 (.text (.dumps scanData))
  · obtain ⟨scanData, rfl⟩ := hreport
    have hreading : (TrivyRun.exits 0 (.text (.dumps scanData))).reading = readReport scanData :=
      rfl
    rw [scan_of_report, hreading]
    refine ⟨rfl, ?_, ?_⟩
    · split_ifs with hcomplete
      · exact iff_of_true rfl hcomplete
      · exact iff_of_false nofun hcomplete
    · rintro data heq hreadable
      cases heq
      exact readReport_of_readable hreadable
  · obtain ⟨hreading, hzero, hstatus⟩ :=
      scan_without_report hmock fun scanData heq => hreport ⟨scanData, heq⟩
    rw [hreading]
    refine ⟨hzero, iff_of_false hstatus Bool.false_ne_true, fun scanData heq => ?_⟩
    exact absurd ⟨scanData, heq⟩ hreport

/-- The second vulnerability of the second result is no object: what was counted before stays,
and what follows is not counted. -/
theorem scan_tallies_unreadable :
    (TrivyRun.exits 0 (.text (.dumps (.obj [("Results", .arr
      [.obj [("Vulnerabilities", .arr [.obj [("Severity", .str "HIGH")], .obj []])],
        .obj [("Vulnerabilities", .null)],
        .obj [("Vulnerabilities", .arr [.obj [("Severity", .str "HIGH")], .null,
          .obj [("Severity", .str "CRITICAL")]])]])])))).scan.2 = ⟨0, 2, 0, 0⟩ := by
  exact (scan_tallies _ fun mock heq => by cases heq).1

end Rcsce
