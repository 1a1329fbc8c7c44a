import Rcsce.Lib.PyM
import Rcsce.Scheduler.Job

/-!
# A scan

`process_job` of `scheduler/workers/worker_node.py`: it runs Trivy, counts the
vulnerabilities of the report by severity and returns a result.  It catches every
exception of the scan, so a scan that did not complete also ends as a result, with
the counts as far as they got.

`TrivyRun` is what the scanner does, and `TrivyRun.Completes` reads off it whether the
scan completes: Trivy is not installed and the scan is mocked, or Trivy exits with 0 and
a report through which the counting loops get to their end.  `completed_scan` says that
this is exactly when the status of the result says so.
-/

namespace Rcsce

/-! ## Counting -/

/-- `vuln_counts`. -/
structure VulnCounts where
  critical : ℕ
  high : ℕ
  medium : ℕ
  low : ℕ
  deriving DecidableEq

namespace VulnCounts

/-- `vuln_counts` before the scan. -/
def zero : VulnCounts := ⟨0, 0, 0, 0⟩

/-- `if sev in vuln_counts: vuln_counts[sev] += 1`. -/
def count (c : VulnCounts) : Json → VulnCounts
  | .str "CRITICAL" => { c with critical := c.critical + 1 }
  | .str "HIGH" => { c with high := c.high + 1 }
  | .str "MEDIUM" => { c with medium := c.medium + 1 }
  | .str "LOW" => { c with low := c.low + 1 }
  | _ => c

/-- The dictionary as the result holds it. -/
def toJson (c : VulnCounts) : Json :=
  .obj [("CRITICAL", .num c.critical), ("HIGH", .num c.high), ("MEDIUM", .num c.medium),
    ("LOW", .num c.low)]

end VulnCounts

/-- The body of the inner loop. -/
def countVuln (vuln : Json) : PyM VulnCounts PUnit := do
  let sev ← PyM.eval (vuln.getD "Severity" (.str "UNKNOWN"))
  if sev.hashable then modify (·.count sev) else throw .typeError

/-- The body of the outer loop. -/
def countResult (result : Json) : PyM VulnCounts PUnit := do
  let vulns ← PyM.eval (result.getD "Vulnerabilities" .null)
  let vulns ← PyM.eval (if vulns.truthy then vulns.iter else .ok [])
  vulns.forM countVuln

/-- The loops over the report. -/
def countReport (scanData : Json) : PyM VulnCounts PUnit := do
  let results ← PyM.eval (scanData.getD "Results" (.arr []))
  let results ← PyM.eval results.iter
  results.forM countResult

/-! ## The report -/

/-- An entry of `Vulnerabilities` is an object, and its severity is not an array or an
object. -/
def ReadableVuln (vuln : Json) : Prop :=
  ∃ sev, vuln.getD "Severity" (.str "UNKNOWN") = .ok sev ∧ sev.hashable = true

/-- An entry of `Results` is an object, whose `Vulnerabilities` are false or can be gone
through and are readable. -/
def ReadableResult (result : Json) : Prop :=
  ∃ value, result.getD "Vulnerabilities" .null = .ok value ∧
    (value.truthy = true → ∃ vulns, value.iter = .ok vulns ∧ ∀ vuln ∈ vulns, ReadableVuln vuln)

/-- A report is an object, whose `Results` can be gone through and are readable. -/
def ReadableReport (scanData : Json) : Prop :=
  ∃ value, scanData.getD "Results" (.arr []) = .ok value ∧
    ∃ results, value.iter = .ok results ∧ ∀ result ∈ results, ReadableResult result

theorem completes_countVuln (vuln : Json) (c : VulnCounts) :
    PyM.Completes (countVuln vuln) c ↔ ReadableVuln vuln := by
  rw [countVuln, PyM.completes_eval_bind, ReadableVuln]
  refine exists_congr fun sev => and_congr_right fun _ => ?_
  split_ifs with h
  · exact iff_of_true (PyM.completes_modify _ _) h
  · exact iff_of_false (PyM.not_completes_throw _ _) h

theorem completes_countResult (result : Json) (c : VulnCounts) :
    PyM.Completes (countResult result) c ↔ ReadableResult result := by
  rw [countResult, PyM.completes_eval_bind, ReadableResult]
  refine exists_congr fun value => and_congr_right fun _ => ?_
  rw [PyM.completes_eval_bind]
  split_ifs with h
  · simp only [PyM.completes_forM fun vuln _ => completes_countVuln vuln, h, forall_const]
  · refine iff_of_true ⟨[], rfl, PyM.completes_pure _ _⟩ fun htrue => absurd htrue h

/-- The loops get to their end exactly on the readable reports. -/
theorem completes_countReport (scanData : Json) (c : VulnCounts) :
    PyM.Completes (countReport scanData) c ↔ ReadableReport scanData := by
  rw [countReport, PyM.completes_eval_bind, ReadableReport]
  refine exists_congr fun value => and_congr_right fun _ => ?_
  simp only [PyM.completes_eval_bind, PyM.completes_forM fun r _ => completes_countResult r]

/-! ## The scan -/

/-- The counts that the mock scan draws. -/
structure MockScan where
  counts : VulnCounts
  critical_le : counts.critical ≤ 3
  high_mem : 1 ≤ counts.high ∧ counts.high ≤ 8
  medium_mem : 2 ≤ counts.medium ∧ counts.medium ≤ 15
  low_mem : 5 ≤ counts.low ∧ counts.low ≤ 30

/-- The standard output of Trivy. -/
inductive Stdout where
  /-- It decodes to this text, which may be empty. -/
  | text (t : JsonText)
  /-- It is not empty and does not decode. -/
  | undecodable

/-- `if stdout`. -/
def Stdout.truthy : Stdout → Bool
  | .text t => t.truthy
  | .undecodable => true

/-- What the attempt to run Trivy comes to. -/
inductive TrivyRun where
  /-- `FileNotFoundError`; the mock scan draws its counts. -/
  | notFound (mock : MockScan)
  /-- `asyncio.TimeoutError`. -/
  | timesOut
  /-- Any other exception before the process has exited. -/
  | raises
  | exits (returncode : ℤ) (stdout : Stdout)

/-- The values of `scan_status`. -/
inductive ScanStatus where
  | scanComplete
  | mockScanComplete
  | scanTimeout
  | scanFailed
  deriving DecidableEq

/-- The text of a status. -/
def ScanStatus.text : ScanStatus → String
  | .scanComplete => "scan_complete"
  | .mockScanComplete => "mock_scan_complete"
  | .scanTimeout => "scan_timeout"
  | .scanFailed => "scan_failed"

/-- `scan_status` and `vuln_counts` when `process_job` returns. -/
def TrivyRun.scan : TrivyRun → ScanStatus × VulnCounts
  | .notFound mock => (.mockScanComplete, mock.counts)
  | .timesOut => (.scanTimeout, .zero)
  | .raises => (.scanFailed, .zero)
  | .exits returncode stdout =>
    if returncode = 0 ∧ stdout.truthy then
      match stdout with
      | .undecodable => (.scanFailed, .zero)
      | .text t =>
        match t.loads with
        | .error _ => (.scanFailed, .zero)
        | .ok scanData =>
          match PyM.exec (countReport scanData) .zero with
          | (.ok _, counts) => (.scanComplete, counts)
          | (.error _, counts) => (.scanFailed, counts)
    else (.scanFailed, .zero)

/-- `WorkerNode.process_job`. -/
def processJob (workerId : Uuid) (job : Job) (run : TrivyRun) (timestamp : String) : Json :=
  .obj [("status", .str run.scan.1.text), ("worker_id", .str (toString workerId)),
    ("job_id", .str (toString job.jobId)), ("image_name", .str job.imageName),
    ("vulnerabilities", run.scan.2.toJson), ("timestamp", .str timestamp)]

/-! ## Scans that complete -/

/-- The scan completes. -/
def TrivyRun.Completes : TrivyRun → Prop
  | .notFound _ => True
  | .timesOut => False
  | .raises => False
  | .exits returncode stdout =>
      returncode = 0 ∧ ∃ scanData, stdout = .text (.dumps scanData) ∧ ReadableReport scanData

/-- The status says that the scan did not complete. -/
def ScanStatus.Incomplete (status : ScanStatus) : Prop :=
  status = .scanTimeout ∨ status = .scanFailed

/-- **The status is right.**  A scan completes if and only if its status does not say that
it timed out or failed. -/
theorem completed_scan (run : TrivyRun) : run.Completes ↔ ¬ run.scan.1.Incomplete := by
  have hfailed : ¬ ¬ ScanStatus.scanFailed.Incomplete := not_not_intro (Or.inr rfl)
  have hcomplete : ¬ ScanStatus.scanComplete.Incomplete := nofun
  cases run with
  | notFound mock => exact iff_of_true trivial nofun
  | timesOut => exact iff_of_false not_false (not_not_intro (Or.inl rfl))
  | raises => exact iff_of_false not_false hfailed
  | exits returncode stdout =>
    simp only [TrivyRun.Completes, TrivyRun.scan]
    split_ifs with hexit
    · cases stdout with
      | undecodable => exact iff_of_false (fun ⟨_, _, h, _⟩ => nomatch h) hfailed
      | text t =>
        cases t with
        | malformed raw => exact iff_of_false (fun ⟨_, _, h, _⟩ => nomatch h) hfailed
        | dumps scanData =>
          have hreport := completes_countReport scanData .zero
          rcases hloop : PyM.exec (countReport scanData) .zero with ⟨⟨e⟩ | ⟨u⟩, counts⟩
          · simp only [JsonText.loads_dumps, hloop]
            refine iff_of_false ?_ hfailed
            rintro ⟨-, data, hdata, hreadable⟩
            cases hdata
            obtain ⟨u, hu⟩ := hreport.mpr hreadable
            rw [hloop] at hu
            cases hu
          · simp only [JsonText.loads_dumps, hloop]
            exact iff_of_true ⟨hexit.1, scanData, rfl, hreport.mp ⟨u, by rw [hloop]⟩⟩ hcomplete
    · refine iff_of_false ?_ hfailed
      rintro ⟨hzero, scanData, rfl, -⟩
      exact hexit ⟨hzero, rfl⟩

end Rcsce
