import SlimStarter.Lib.Trace
import SlimStarter.Customer.Export

/-!
# What an export has written

Whatever the replies to its statements, an export job that returns has read its rows once and
written the file of exactly these (`reaches_handle`).
-/

namespace SlimStarter

namespace ExportStmt

/-- The statement reads the rows of an export. -/
def streams : ExportStmt → Bool
  | iterateForExport .. => true
  | _ => false

abbrev Quiet (op : ExportStmt) : Prop := op.streams = false

/-- The path and the text of a write. -/
def written : ExportStmt → Option (Bytes × Bytes)
  | writeFile path text => some (path, text)
  | _ => none

@[simp] theorem written_countGet {keywords : Bytes} {status : Option Bytes} :
    (countGet keywords status).written = none := rfl

@[simp] theorem written_iterateForExport {keywords : Bytes} {status : Option Bytes} :
    (iterateForExport keywords status).written = none := rfl

@[simp] theorem written_openFile {path : Bytes} : (openFile path).written = none := rfl

@[simp] theorem written_writeFile {path text : Bytes} :
    (writeFile path text).written = some (path, text) := rfl

@[simp] theorem written_progress {percent : ℕ} {message : String} :
    (progress percent message).written = none := rfl

end ExportStmt

namespace CustomerExportJob

open Prog (Only Reaches)

variable {E : CustomerEnv} {datetime : LocalTime → Bytes} {path : Bytes} {progress : Bool}
variable {total processed jobId : ℕ} {keywords : Bytes} {status : Option Bytes}
variable {rows : List CustomerRow} {rs : List (Reply ExportStmt ExportStmt.Res Failure)}

/-- The line of a row in the file. -/
def line (datetime : LocalTime → Bytes) (path : Bytes) (row : CustomerRow) : Bytes × Bytes :=
  (path, Csv.fputcsv (fields datetime row))

theorem reaches_report {u : Unit} (h : Reaches (report progress total processed) rs (.ret u)) :
    rs.filterMap (·.op.written) = [] := by
  unfold report at h
  split at h
  · obtain ⟨a, rs', rfl, hend⟩ := h.resume_ret
    cases hend
    rfl
  · cases h
    rfl

/-- The loop that returns has written each of its rows. -/
theorem reaches_exportRows {n : ℕ}
    (h : Reaches (exportRows datetime path progress total processed rows) rs (.ret n)) :
    n = processed + rows.length ∧ rs.filterMap (·.op.written) = rows.map (line datetime path) := by
  induction rows generalizing processed rs with
  | nil =>
    cases h
    exact ⟨rfl, rfl⟩
  | cons row rows ih =>
    simp only [exportRows, Prog.stmt_bind] at h
    obtain ⟨a, rs₁, rfl, hloop⟩ := h.resume_ret
    obtain ⟨u, rs₂, rs₃, rfl, hreport, hrest⟩ := hloop.bind_ret
    obtain ⟨rfl, hwritten⟩ := ih hrest
    refine ⟨by rw [List.length_cons]; omega, ?_⟩
    simp [line, reaches_report hreport, hwritten]

theorem quiet_report :
    Only ExportStmt.Quiet (fun _ => True) (report progress total processed) := by
  unfold report
  split
  · exact Prog.only_stmt.mpr ⟨rfl, fun _ => trivial⟩
  · trivial

theorem quiet_exportRows : Only ExportStmt.Quiet (fun _ => True)
    (exportRows datetime path progress total processed rows) := by
  induction rows generalizing processed with
  | nil => trivial
  | cons row rows ih =>
    exact Prog.only_bind.mpr (Prog.only_stmt.mpr ⟨rfl, fun _ =>
      Prog.only_bind.mpr (quiet_report.mono fun _ _ => ih)⟩)

/-- A job that returns has read its rows, counts them, and has written the file of them. -/
theorem reaches_handle {r : ExportResult}
    (h : Reaches (handle E datetime jobId keywords status progress) rs (.ret r)) :
    ∃ rows, ⟨.iterateForExport (trim keywords) (status.filter (· ≠ [])), .ok rows⟩ ∈ rs
      ∧ r.rowCount = rows.length
      ∧ rs.filterMap (·.op.written) =
        (customerExportFile E jobId, bom) :: (customerExportFile E jobId, Csv.fputcsv columns)
          :: rows.map (line datetime (customerExportFile E jobId)) := by
  simp only [handle, Prog.stmt_bind] at h
  obtain ⟨total, rs₁, rfl, hcounted⟩ := h.resume_ret
  obtain ⟨opened, rs₂, rfl, hopened⟩ := hcounted.resume_ret
  cases opened
  · cases hopened
  · obtain ⟨-, rs₃, rfl, hbom⟩ := hopened.resume_ret
    obtain ⟨-, rs₄, rfl, hheader⟩ := hbom.resume_ret
    obtain ⟨rows, rs₅, rfl, hstreamed⟩ := hheader.resume_ret
    obtain ⟨processed, rs₆, rs₇, rfl, hrows, hend⟩ := hstreamed.bind_ret
    obtain ⟨hcount, hwritten⟩ := reaches_exportRows hrows
    obtain ⟨hcompleted, hr⟩ : rs₇.filterMap (·.op.written) = [] ∧ r.rowCount = processed := by
      split at hend
      · obtain ⟨-, rs₈, rfl, hend⟩ := hend.resume_ret
        cases hend with
        | clock hend =>
          cases hend
          exact ⟨rfl, rfl⟩
      · cases hend with
        | clock hend =>
          cases hend
          exact ⟨rfl, rfl⟩
    refine ⟨rows, by simp, by omega, ?_⟩
    simp only [List.filterMap_cons, ExportStmt.written_countGet, ExportStmt.written_openFile,
      ExportStmt.written_writeFile, ExportStmt.written_iterateForExport, List.filterMap_append,
      hwritten, hcompleted, List.append_nil]

/-- Where a job is about to read its rows, it reads those of its filters, for the first time. -/
theorem reaches_handle_stream {op : ExportStmt} {c} (hop : op.streams = true)
    (h : Reaches (handle E datetime jobId keywords status progress) rs (.call op c)) :
    op = .iterateForExport (trim keywords) (status.filter (· ≠ []))
      ∧ ∀ r ∈ rs, r.op.Quiet := by
  simp only [handle, Prog.stmt_bind] at h
  rcases h.resume_call with ⟨-, rfl⟩ | ⟨total, rs₁, rfl, hcounted⟩
  · cases hop
  rcases hcounted.resume_call with ⟨-, rfl⟩ | ⟨opened, rs₂, rfl, hopened⟩
  · cases hop
  cases opened
  · cases hopened
  rcases hopened.resume_call with ⟨-, rfl⟩ | ⟨-, rs₃, rfl, hbom⟩
  · cases hop
  rcases hbom.resume_call with ⟨-, rfl⟩ | ⟨-, rs₄, rfl, hheader⟩
  · cases hop
  rcases hheader.resume_call with ⟨rfl, rfl⟩ | ⟨rows, rs₅, rfl, hstreamed⟩
  · refine ⟨rfl, fun r hr => ?_⟩
    simp only [List.mem_cons, List.not_mem_nil, or_false] at hr
    rcases hr with rfl | rfl | rfl | rfl <;> rfl
  · rcases hstreamed.bind_call with ⟨c', hwriting⟩ | ⟨processed, rs₆, rs₇, rfl, -, hend⟩
    · have hquiet := (quiet_exportRows.reaches hwriting).2.1
      exact absurd hop (by simp [hquiet])
    · split at hend
      · rcases hend.resume_call with ⟨-, rfl⟩ | ⟨-, rs₈, rfl, hend⟩
        · cases hop
        · cases hend with
          | clock hend => cases hend
      · cases hend with
        | clock hend => cases hend

end CustomerExportJob

end SlimStarter
