import SlimStarter.Http.Privilege

/-!
# An export is queued where its rows were counted

A call queues an export only by the statement after a count of its rows that was within the bound
of an export. `countMonitor` says so, and every call keeps it whatever the replies
(`AppCall.gated`): but for the request of an export, no call queues one at all.
-/

namespace SlimStarter

open Prog (Composed Only)

/-- The filters of a count whose reply is within the bound of an export. -/
def AppStmt.counted : (op : AppStmt) → Except Failure op.Res → Option (Bytes × Option Bytes)
  | .customer (.countGet keywords status), .ok total =>
    if total ≤ CustomerTransferService.exportMaxRows then some (keywords, status) else none
  | _, _ => none

/-- The statement queues an export. -/
def AppStmt.queuesExport : AppStmt → Bool
  | .dispatch type _ => type = JobType.customerExport
  | _ => false

/-- The phase has the filters that the last statement counted. -/
def countMonitor : Monitor AppStmt AppStmt.Res Failure (Option (Bytes × Option Bytes)) where
  next _ op r := op.counted r
  allowed φ op := op.queuesExport = true → ∃ keywords status userId,
    φ = some (keywords, status) ∧ op = .dispatch JobType.customerExport
      (.export keywords status userId)

/-- The program queues an export after a count only, in whatever phase it starts. -/
abbrev Gated {α : Type} (p : AppProg α) : Prop :=
  ∀ φ, countMonitor.Keeps (fun _ _ => True) (fun _ _ => True) φ p

section Parts

variable {α : Type}

theorem gated_composed : Composed fun α (p : AppProg α) => Gated p where
  ret _ _ := trivial
  throw _ _ := trivial
  clock h φ t := h t φ
  bind hp hf φ := Monitor.keeps_bind.mpr ((hp φ).mono (fun φ a _ => hf a φ) fun _ _ h => h)
  tryCatch hp hf φ :=
    Monitor.keeps_tryCatch.mpr ((hp φ).mono (fun _ _ h => h) fun φ e _ => hf e φ)

theorem gated_of_only {p : AppProg α}
    (h : Only (fun op => op.queuesExport = false) (fun _ => True) p) : Gated p :=
  fun _ => Monitor.Keeps.of_allowed (fun _ _ hop hq => by simp [hop] at hq) h

theorem gated_perform {op : AppStmt} (h : op.queuesExport = false) : Gated (perform op) :=
  gated_of_only (Prog.only_stmt.mpr ⟨h, fun _ => trivial⟩)

theorem gated_onAuth (p : AuthProg α) : Gated (onAuth p) :=
  gated_of_only
    (Prog.only_translate (Q := fun op : AppStmt => op.queuesExport = false) (fun _ => rfl) p)

theorem gated_onCustomers (p : CustomerProg α) : Gated (onCustomers p) :=
  gated_of_only
    (Prog.only_translate (Q := fun op : AppStmt => op.queuesExport = false) (fun _ => rfl) p)

theorem gated_onExports (p : ExportProg α) : Gated (onExports p) :=
  gated_of_only
    (Prog.only_translate (Q := fun op : AppStmt => op.queuesExport = false) (fun _ => rfl) p)

end Parts

/-! ## Actions -/

section Actions

variable {E : AppEnv} {c : Context}

/-- The request of an export queues it with the filters that it has counted. -/
theorem gated_requestExport (dto : CustomerExportRequest) (userId : ℕ) :
    Gated (CustomerTransferService.requestExport dto userId) := by
  intro φ
  unfold CustomerTransferService.requestExport
  simp only [Prog.stmt_bind, Monitor.keeps_call_resume]
  refine ⟨fun hop => (by cases hop), fun _ => trivial, fun total => ?_⟩
  split_ifs with hlarge
  · trivial
  · have hcounted : AppStmt.counted (.customer (.countGet dto.keywords dto.status)) (.ok total) =
        some (dto.keywords, dto.status) := if_pos (not_lt.mp hlarge)
    exact Monitor.keeps_call_resume.mpr
      ⟨fun _ => ⟨_, _, userId, hcounted, rfl⟩, fun _ => trivial, fun _ => trivial⟩

theorem Action.gated_uses (action : Action) :
    action.Uses E c fun _ (p : AppProg _) => Gated p := by
  cases action with
  | register | login | refresh | changePassword => exact fun _ _ _ => gated_onAuth _
  | logout | me => exact fun _ => gated_onAuth _
  | updateProfile => exact fun _ _ => gated_onAuth _
  | list => exact fun _ _ _ _ => gated_onCustomers _
  | stats => exact gated_onCustomers _
  | «show» | create | delete | removeAvatar => exact fun _ => gated_onCustomers _
  | update | uploadAvatar => exact fun _ _ => gated_onCustomers _
  | «export» => exact gated_requestExport
  | «import» =>
    have himport : ∀ payload,
        (AppStmt.dispatch JobType.customerImport payload).queuesExport = false :=
      fun _ => decide_eq_false (show ¬ JobType.customerImport = JobType.customerExport by decide)
    exact ⟨fun _ => gated_onCustomers _, fun _ => gated_perform rfl,
      fun payload => gated_perform (himport payload)⟩
  | download =>
    exact ⟨fun _ => gated_perform rfl, fun _ => gated_perform rfl, fun _ => gated_perform rfl⟩
  | jobStatus => exact fun _ => gated_perform rfl
  | readiness => exact gated_perform rfl
  | detailed => exact ⟨gated_perform rfl, gated_perform rfl⟩
  | getStatus | getStatusAPI | openSwaggerUI | preflight | notFound | liveness => trivial

end Actions

/-! ## Calls -/

section Calls

variable {E : AppEnv} {request : Request} {R : AppEntropy}

theorem App.gated : Gated (App.handle E request R) := by
  unfold App.handle
  simp only
  cases findRoute request.method request.path <|>
      if request.method = ascii "HEAD" then findRoute (ascii "GET") request.path else none with
  | none => exact gated_composed.ret _
  | some found =>
    exact gated_composed.tryCatch (Route.handle_of gated_composed fun _ => Action.gated_uses _)
      fun _ => gated_composed.ret _

theorem AppCall.gated (c : AppCall × AppEntropy) : Gated (AppPool.start E c) := by
  obtain ⟨call, R⟩ := c
  cases call with
  | request arrival request => exact gated_composed.map App.gated _
  | work job =>
    exact gated_composed.map
      (JobRegistry.handle_of gated_composed gated_onExports gated_onCustomers) _
  | record jobId state => exact gated_composed.map (gated_perform rfl) _

end Calls

end SlimStarter
