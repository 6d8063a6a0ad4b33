import SlimStarter.Lib.Interrupt
import SlimStarter.Customer.Avatar
import SlimStarter.Customer.Listing
import SlimStarter.Customer.Streamed
import SlimStarter.Http.Gate

/-!
# The bound of an export

A request queues an export only if it counts no more customers than the bound, and a worker writes
the rows that it reads later. In every run it writes exactly the customers that the filters select
where it reads them, however many these have become (`exported_above_bound`).

An export is `Open` from the count of its request until a worker has read its rows. In a run in
which no write takes the selection of an open export over the bound, and no completed export is
reopened or taken up again while its selection is over it, no export has more rows
(`export_bounded`).
-/

namespace SlimStarter

open Prog (Reaches)

variable {E : AppEnv} {keywords : Bytes} {status : Option Bytes}

/-- The filters select no more customers than an export may have. -/
def AppDb.Fits (E : AppEnv) (db : AppDb) (keywords : Bytes) (status : Option Bytes) : Prop :=
  CustomerModel.countGet E.customer db.customer.customer keywords status
    ≤ CustomerTransferService.exportMaxRows

/-- An export with the filters as the job reads them. -/
theorem iterateForExport_trim {F : CustomerEnv} {t : Table CustomerRow} :
    CustomerModel.iterateForExport F t (trim keywords) (status.filter (· ≠ [])) =
      CustomerModel.iterateForExport F t keywords status := by
  have hstatus : (status.filter (· ≠ [])).getD [] = status.getD [] := by
    cases status with
    | none => rfl
    | some s => by_cases hs : s = [] <;> simp [Option.filter, hs]
  have hfilters : ∀ r, CustomerModel.matchesFilters F (trim keywords) (status.filter (· ≠ [])) r =
      CustomerModel.matchesFilters F keywords status r :=
    matchesFilters_congr (by rw [trim_trim]) hstatus
  simp only [CustomerModel.iterateForExport, CustomerModel.selected, hfilters]

theorem length_iterateForExport {F : CustomerEnv} {t : Table CustomerRow} :
    (CustomerModel.iterateForExport F t keywords status).length =
      CustomerModel.countGet F t keywords status :=
  List.length_insertionSort _ _

theorem customers_exec {op : AppStmt} (h : ∀ op', op ≠ .customer op') (now : Int) (db : AppDb) :
    (E.exec op now db).2.customer.customer = db.customer.customer := by
  cases op with
  | customer op => exact absurd rfl (h op)
  | «export» op => cases op <;> rfl
  | _ => rfl

/-- The job is an export with these filters. -/
structure JobData.Exports (job : JobData) (keywords : Bytes) (status : Option Bytes) : Prop where
  type : job.type = JobType.customerExport
  keywords : job.payload.keywords = keywords
  status : job.payload.status = status

def AppStmt.streams : AppStmt → Bool
  | .export op => op.streams
  | _ => false

/-- An export with these filters is to be queued, waits for a worker, or runs and has not read its
rows. -/
inductive AppPool.Open (s : AppPool) (keywords : Bytes) (status : Option Bytes) : Prop where
  | counted {i : ℕ} {c : AppCall × AppEntropy} {userId : ℕ}
      {k : Except Failure ℕ → AppProg AppResult}
      (h : s.procs[i]? = some ⟨c, .call
        (.dispatch JobType.customerExport (.export keywords status userId)) k⟩)
  | queued {job : JobData} (h : job ∈ s.db.job.rows) (hjob : job.Exports keywords status)
      (hstatus : job.state.status ≠ JobStatus.completed)
  | working {i : ℕ} {job : JobData} {R : AppEntropy} {op : AppStmt}
      {k : Except Failure op.Res → AppProg AppResult}
      (h : s.procs[i]? = some ⟨(.work job, R), .call op k⟩) (hjob : job.Exports keywords status)
      (hlog : ∀ ev ∈ s.log, ev.pid = i → ev.op.streams = false)

/-- What every open export selects fits. -/
def AppPool.Bounded (E : AppEnv) (s : AppPool) : Prop :=
  ∀ keywords status, s.Open keywords status → s.db.Fits E keywords status

/-- The statement takes no open export over the bound and reopens none that is over it. -/
def AppPool.Spares (E : AppEnv) (s : AppPool) : AppStmt → Prop
  | .customer op => ∀ keywords status, s.Open keywords status →
    (E.exec (.customer op) s.now s.db).2.Fits E keywords status
  | .record jobId state => state.status ≠ JobStatus.completed → ∀ job ∈ s.db.job.rows,
    job.id = jobId → ∀ keywords status, job.Exports keywords status → s.db.Fits E keywords status
  | _ => True

/-- The statements executed spare the open exports, and a worker takes up a completed export only
where its selection fits. -/
def AppPool.Room (E : AppEnv) (s : AppPool) : AppAct → Prop
  | .step i => ∀ c op k, s.procs[i]? = some ⟨c, .call op k⟩ → s.Spares E op
  | .spawn (.work job, _) => job.state.status = JobStatus.completed →
    ∀ keywords status, job.Exports keywords status → s.db.Fits E keywords status
  | _ => True

/-- A run in which there is room for the open exports. -/
abbrev AppPool.RoomySteps (E : AppEnv) : AppPool → AppPool → Prop :=
  Pool.Steps E.exec (AppPool.start E) fun s a => AppPool.Admits E s a ∧ AppPool.Room E s a

/-- Each call of the pool queues exports after a count only. -/
abbrev AppPool.Gated (s : AppPool) : Prop :=
  Pool.Follows countMonitor (fun _ => True) (fun _ => none) s

section Act

variable {s s' : AppPool} {a : AppAct}

theorem AppPool.Gated.act (h : s.Gated)
    (ha : Pool.act E.exec (AppPool.start E) s a = some s') : s'.Gated :=
  Pool.Follows.act h (fun c _ => AppCall.gated c none) ha

theorem AppStmt.counted_eq_some {op : AppStmt} {r : Except Failure op.Res}
    (h : op.counted r = some (keywords, status)) : ∃ total,
      (⟨op, r⟩ : Reply AppStmt AppStmt.Res Failure)
        = ⟨.customer (.countGet keywords status), .ok total⟩
      ∧ total ≤ CustomerTransferService.exportMaxRows := by
  unfold AppStmt.counted at h
  split at h
  · split_ifs at h with hfits
    cases h
    exact ⟨_, rfl, hfits⟩
  · cases h

/-- The last statement of a call that is about to queue an export was the count of its rows. -/
theorem AppPool.Gated.phase (h : s.Gated) {i : ℕ} {c : AppCall × AppEntropy}
    {payload : JobPayload} {k : Except Failure ℕ → AppProg AppResult}
    (hi : s.procs[i]? = some ⟨c, .call (.dispatch JobType.customerExport payload) k⟩) :
    ∃ keywords status userId, countMonitor.phase none i s.log = some (keywords, status)
      ∧ payload = .export keywords status userId := by
  obtain ⟨keywords, status, userId, hphase, hop⟩ := (h.keeps i _ hi).1 
    (decide_eq_true (rfl : JobType.customerExport = JobType.customerExport))
  cases hop
  exact ⟨keywords, status, userId, hphase, rfl⟩

/-- A call that is about to queue an export was before, or has just counted rows that fit. -/
theorem AppPool.Gated.counted_act (h : s.Gated) {i : ℕ} {c : AppCall × AppEntropy} {userId : ℕ}
    {k : Except Failure ℕ → AppProg AppResult}
    (ha : Pool.act E.exec (AppPool.start E) s a = some s')
    (hi' : s'.procs[i]? = some ⟨c, .call
      (.dispatch JobType.customerExport (.export keywords status userId)) k⟩) :
    s.Open keywords status ∨ s'.db.Fits E keywords status := by
  obtain ⟨_, _, _, hphase, hpayload⟩ := (h.act ha).phase hi'
  cases hpayload
  have hnone : ∀ {e : Failure} {op : AppStmt}, op.counted (.error e) ≠ some (keywords, status) := by
    intro e op hcounted
    obtain ⟨total, heq, -⟩ := AppStmt.counted_eq_some hcounted
    cases heq
  rcases Pool.act_cases ha with ⟨c', rfl, rfl⟩ | ⟨t, rfl, rfl⟩ | ⟨j, c', op, k', rfl, hj, rfl⟩ |
    ⟨j, e, c', op, k', rfl, hj, rfl⟩
  · rcases Pool.spawn_procs hi' with ⟨rfl, -⟩ | ⟨-, hi⟩
    · rw [Monitor.phase_of_forall_ne] at hphase
      · cases hphase
      · intro ev hev heq
        obtain ⟨p, hp⟩ := h.pid hev
        simp [heq] at hp
    · exact .inl (.counted hi)
  · exact .inl (.counted hi')
  · rcases Pool.advance_procs hi' with ⟨rfl, -⟩ | ⟨-, hi⟩
    · rw [Pool.advance_log, Monitor.phase_cons_self (e := ⟨s.log.length, i, op, _⟩) rfl] at hphase
      obtain ⟨total, heq, hfits⟩ := AppStmt.counted_eq_some hphase
      cases heq
      exact .inr hfits
    · exact .inl (.counted hi)
  · rcases Pool.advance_procs hi' with ⟨rfl, -⟩ | ⟨-, hi⟩
    · rw [Pool.advance_log, Monitor.phase_cons_self (e := ⟨s.log.length, i, op, _⟩) rfl] at hphase
      exact absurd hphase hnone
    · exact .inl (.counted hi)

/-- An export that waits was open before, or is one that was completed and fits. -/
theorem AppPool.Gated.queued_act (h : s.Gated) (hroom : s.Room E a) {job : JobData}
    (ha : Pool.act E.exec (AppPool.start E) s a = some s') (hjob : job ∈ s'.db.job.rows)
    (hexports : job.Exports keywords status) (hstatus : job.state.status ≠ JobStatus.completed) :
    s.Open keywords status ∨ s'.db.Fits E keywords status := by
  rcases Pool.act_cases ha with ⟨c', rfl, rfl⟩ | ⟨t, rfl, rfl⟩ | ⟨j, c', op, k', rfl, hj, rfl⟩ |
    ⟨j, e, c', op, k', rfl, hj, rfl⟩
  · exact .inl (.queued hjob hexports hstatus)
  · exact .inl (.queued hjob hexports hstatus)
  · cases op with
    | dispatch type payload =>
      rcases Table.mem_insert.mp hjob with hjob | rfl
      · exact .inl (.queued hjob hexports hstatus)
      · obtain ⟨htype, hkeywords, hpayload⟩ := hexports
        obtain rfl : type = _ := htype
        obtain ⟨_, _, _, -, rfl⟩ := h.phase hj
        cases hkeywords
        cases hpayload
        exact .inl (.counted hj)
    | record jobId state =>
      rcases Table.mem_update.mp hjob with ⟨hjob, -⟩ | ⟨job', hjob', hid, rfl⟩
      · exact .inl (.queued hjob hexports hstatus)
      · exact .inr (hroom _ _ _ hj hstatus job' hjob' (by simpa using hid) _ _
          ⟨hexports.type, hexports.keywords, hexports.status⟩)
    | _ => exact .inl (.queued hjob hexports hstatus)
  · exact .inl (.queued hjob hexports hstatus)

/-- An export that runs was open before, or was completed and fits. -/
theorem AppPool.working_act {i : ℕ} {job : JobData} {R : AppEntropy} {op : AppStmt}
    {k : Except Failure op.Res → AppProg AppResult} (hadmits : s.Admits E a)
    (hroom : s.Room E a) (ha : Pool.act E.exec (AppPool.start E) s a = some s')
    (hi' : s'.procs[i]? = some ⟨(.work job, R), .call op k⟩)
    (hexports : job.Exports keywords status)
    (hlog : ∀ ev ∈ s'.log, ev.pid = i → ev.op.streams = false) :
    s.Open keywords status ∨ s'.db.Fits E keywords status := by
  have hlog : ∀ ev ∈ s.log, ev.pid = i → ev.op.streams = false :=
    fun ev hev => hlog ev (Pool.act_log ha hev)
  have hadvance : ∀ {j c op' k' r db}, s.procs[j]? = some ⟨c, .call op' k'⟩ →
      (s.advance j c op' r db k').procs[i]? = some ⟨(.work job, R), .call op k⟩ →
      s.Open keywords status := by
    intro j c op' k' r db hj hi'
    rcases Pool.advance_procs hi' with ⟨rfl, hp⟩ | ⟨-, hi⟩
    · obtain ⟨rfl, -⟩ := Proc.mk.inj hp
      exact .working hj hexports hlog
    · exact .working hi hexports hlog
  rcases Pool.act_cases ha with ⟨c', rfl, rfl⟩ | ⟨t, rfl, rfl⟩ | ⟨j, c', op', k', rfl, hj, rfl⟩ |
    ⟨j, e, c', op', k', rfl, hj, rfl⟩
  · rcases Pool.spawn_procs hi' with ⟨-, hp⟩ | ⟨-, hi⟩
    · obtain ⟨rfl, -⟩ := Proc.mk.inj hp
      by_cases hstatus : job.state.status = JobStatus.completed
      · exact .inr (hroom hstatus _ _ hexports)
      · exact .inl (.queued hadmits hexports hstatus)
    · exact .inl (.working hi hexports hlog)
  · exact .inl (.working hi' hexports hlog)
  · exact .inl (hadvance hj hi')
  · exact .inl (hadvance hj hi')

/-- An admitted act for which there is room leaves every open export one that fits. -/
theorem AppPool.Bounded.act (h : s.Bounded E) (hgated : s.Gated) (hadmits : s.Admits E a)
    (hroom : s.Room E a) (ha : Pool.act E.exec (AppPool.start E) s a = some s') :
    s'.Bounded E := by
  have hkept : ∀ {keywords status}, s.Open keywords status → s'.db.Fits E keywords status := by
    intro keywords status hopen
    have hfits := h _ _ hopen
    rcases Pool.act_cases ha with ⟨c, rfl, rfl⟩ | ⟨t, rfl, rfl⟩ | ⟨j, c, op, k, rfl, hj, rfl⟩ |
      ⟨j, e, c, op, k, rfl, hj, rfl⟩
    · exact hfits
    · exact hfits
    · by_cases hop : ∃ op', op = .customer op'
      · obtain ⟨op, rfl⟩ := hop
        exact hroom _ _ _ hj _ _ hopen
      · unfold AppDb.Fits at hfits ⊢
        rwa [Pool.advance_db, customers_exec (fun op' heq => hop ⟨op', heq⟩)]
    · exact hfits
  intro keywords status hopen'
  have hbefore : s.Open keywords status ∨ s'.db.Fits E keywords status := by
    cases hopen' with
    | counted hi' => exact hgated.counted_act ha hi'
    | queued hjob hexports hstatus => exact hgated.queued_act hroom ha hjob hexports hstatus
    | working hi' hexports hlog => exact working_act hadmits hroom ha hi' hexports hlog
  exact hbefore.elim hkept id

end Act

/-- Call `i` has run this export and returned. -/
def AppPool.Exported (s : AppPool) (i : ℕ) (job : JobData) (result : ExportResult) : Prop :=
  ∃ R, s.procs[i]? = some ⟨(.work job, R), .ret (.job (.exported result))⟩

/-- The path and the text of a write of an export. -/
def AppStmt.written : AppStmt → Option (Bytes × Bytes)
  | .export op => op.written
  | _ => none

/-- What call `i` has written, oldest first. -/
def AppPool.written (s : AppPool) (i : ℕ) : List (Bytes × Bytes) :=
  (Pool.replies i s.log).filterMap (·.op.written)

/-- What the filters of the job select now, in the order of the file. -/
def AppPool.rows (E : AppEnv) (s : AppPool) (job : JobData) : List CustomerRow :=
  CustomerModel.iterateForExport E.customer s.db.customer.customer job.payload.keywords
    job.payload.status

/-- Call `i` runs this export and is about to read its rows. -/
def AppPool.Streams (s : AppPool) (i : ℕ) (job : JobData) : Prop :=
  ∃ R op k, s.procs[i]? = some ⟨(.work job, R), .call op k⟩ ∧ op.streams = true

/-- The count and the writes of this export are those of these rows. -/
def AppPool.HasRows (E : AppEnv) (s : AppPool) (i : ℕ) (job : JobData) (result : ExportResult)
    (rows : List CustomerRow) : Prop :=
  let path := CustomerExportJob.customerExportFile E.customer job.id
  result.rowCount = rows.length
    ∧ s.written i = (path, CustomerExportJob.bom) ::
      (path, Csv.fputcsv CustomerExportJob.columns) ::
        rows.map (CustomerExportJob.line E.datetime path)

/-- A reply to a statement of an export as the application has it. -/
def exportReply (r : Reply ExportStmt ExportStmt.Res Failure) :
    Reply AppStmt AppStmt.Res Failure :=
  ⟨.export r.op, r.reply⟩

theorem reaches_onExports {α : Type} {p : ExportProg α} {q : AppProg α}
    {rs : List (Reply AppStmt AppStmt.Res Failure)} (h : Reaches (onExports p) rs q) :
    ∃ rs' q', q = onExports q' ∧ Reaches p rs' q' ∧ rs = rs'.map exportReply := by
  obtain ⟨rs', q', hq, hp, hrs⟩ := Reaches.of_translate h
  refine ⟨rs', q', hq, hp, ?_⟩
  rw [← List.forall₂_eq_eq_eq, List.forall₂_map_right_iff]
  refine hrs.imp fun r r' hr => ?_
  obtain ⟨a, rfl, hreply⟩ := hr
  rw [exportReply, hreply]
  cases a <;> rfl

/-- A call that works on an export runs its job. -/
theorem start_work {job : JobData} {R : AppEntropy} (htype : job.type = JobType.customerExport) :
    AppPool.start E (.work job, R) = AppResult.job <$> JobResult.exported <$> onExports
      (CustomerExportJob.handle E.customer E.datetime job.id job.payload.keywords
        job.payload.status true) := by
  simp only [AppPool.start, AppCall.prog, JobRegistry.handle, if_pos htype]

variable {job : JobData} {R : AppEntropy} {rs : List (Reply AppStmt AppStmt.Res Failure)}

/-- A call that has returned the result of an export has read its rows and written these. -/
theorem reaches_exported {result : ExportResult}
    (h : Reaches (AppPool.start E (.work job, R)) rs (.ret (.job (.exported result)))) :
    let path := CustomerExportJob.customerExportFile E.customer job.id
    job.type = JobType.customerExport ∧ ∃ rows,
      ⟨.export (.iterateForExport (trim job.payload.keywords)
        (job.payload.status.filter (· ≠ []))), .ok rows⟩ ∈ rs
      ∧ result.rowCount = rows.length
      ∧ rs.filterMap (·.op.written) = (path, CustomerExportJob.bom) ::
        (path, Csv.fputcsv CustomerExportJob.columns) ::
          rows.map (CustomerExportJob.line E.datetime path) := by
  intro path
  by_cases htype : job.type = JobType.customerExport
  · rw [start_work htype] at h
    obtain ⟨_, hjob, hmap⟩ := h.map_ret
    obtain ⟨_, hexported, hrun⟩ := hmap.map_ret
    obtain ⟨rs', q', hq, hp, rfl⟩ := reaches_onExports hrun
    cases q' with
    | ret a =>
      cases hq
      cases hexported
      cases hjob
      obtain ⟨rows, hmem, hcount, hwritten⟩ := CustomerExportJob.reaches_handle hp
      refine ⟨htype, rows, List.mem_map_of_mem hmem, hcount, ?_⟩
      rw [List.filterMap_map]
      exact hwritten
    | _ => cases hq
  · exfalso
    have hnot : AppPool.start E (.work job, R) = AppResult.job <$> JobRegistry.handle E job := rfl
    rw [hnot] at h
    obtain ⟨_, hjob, hmap⟩ := h.map_ret
    cases hjob
    simp only [JobRegistry.handle, if_neg htype] at hmap
    split_ifs at hmap
    · obtain ⟨_, hexported, -⟩ := hmap.map_ret
      cases hexported
    · cases hmap

/-- A call that works on an export and is about to read its rows has read none before. -/
theorem reaches_streams {op : AppStmt} {k : Except Failure op.Res → AppProg AppResult}
    (htype : job.type = JobType.customerExport) (hop : op.streams = true)
    (h : Reaches (AppPool.start E (.work job, R)) rs (.call op k)) :
    ∀ r ∈ rs, r.op.streams = false := by
  rw [start_work htype] at h
  obtain ⟨k₁, hmap⟩ := h.map_call
  obtain ⟨k₂, hrun⟩ := hmap.map_call
  obtain ⟨rs', q', hq, hp, rfl⟩ := reaches_onExports hrun
  cases q' with
  | call op' k' =>
    cases hq
    intro r hr
    obtain ⟨r', hr', rfl⟩ := List.mem_map.mp hr
    exact (CustomerExportJob.reaches_handle_stream hop hp).2 r' hr'
  | _ => cases hq

/-! ## Runs -/

variable {G : AppPool → AppAct → Prop} {db : AppDb} {now : Int} {s : AppPool}

/-- What a call has read it read at a moment of the run. -/
theorem AppPool.moment {i : ℕ} {rows : List CustomerRow}
    (run : Pool.Steps E.exec (AppPool.start E) G (AppPool.idle db now) s)
    (h : ⟨.export (.iterateForExport keywords status), .ok rows⟩ ∈ Pool.replies i s.log) :
    ∃ s₁ s₂ c k, Pool.Steps E.exec (AppPool.start E) G (AppPool.idle db now) s₁
      ∧ s₁.procs[i]? = some ⟨c, .call (.export (.iterateForExport keywords status)) k⟩
      ∧ Pool.act E.exec (AppPool.start E) s₁ (.step i) = some s₂
      ∧ Pool.Steps E.exec (AppPool.start E) G s₂ s
      ∧ rows =
        CustomerModel.iterateForExport E.customer s₁.db.customer.customer keywords status := by
  obtain ⟨e, he, rfl, hreply⟩ := Pool.mem_replies h
  obtain ⟨s₁, a, s₂, hbefore, -, ha, hafter, hlog⟩ := run.moment he (by simp [AppPool.idle])
  have hlength : ∀ {t : AppPool}, t.log = s₁.log → e :: s₁.log ≠ t.log := by
    intro t ht heq
    simpa [ht] using congrArg List.length heq
  rcases Pool.act_cases ha with ⟨c, rfl, rfl⟩ | ⟨t, rfl, rfl⟩ | ⟨j, c, op, k, rfl, hj, rfl⟩ |
    ⟨j, e, c, op, k, rfl, hj, rfl⟩
  · exact absurd hlog.symm (hlength rfl)
  · exact absurd hlog.symm (hlength rfl)
  · rw [Pool.advance_log] at hlog
    obtain ⟨rfl, -⟩ := List.cons_eq_cons.mp hlog
    cases hreply
    exact ⟨s₁, _, c, k, hbefore, hj, ha, hafter, rfl⟩
  · rw [Pool.advance_log] at hlog
    obtain ⟨rfl, -⟩ := List.cons_eq_cons.mp hlog
    cases hreply

theorem AppPool.call_of_steps {s' : AppPool} {i : ℕ} {c : AppCall × AppEntropy} {p}
    (run : Pool.Steps E.exec (AppPool.start E) G s s')
    (h : ∃ p, s.procs[i]? = some p ∧ p.call = c) (hp : s'.procs[i]? = some p) : p.call = c := by
  have hstep : ∀ s a s', (∃ p, s.procs[i]? = some p ∧ p.call = c) → G s a →
      Pool.act E.exec (AppPool.start E) s a = some s' →
      ∃ p, s'.procs[i]? = some p ∧ p.call = c := by
    rintro s a s' ⟨q, hq, hcall⟩ - ha
    obtain ⟨q', hq', hsame⟩ := Pool.act_procs ha hq
    exact ⟨q', hq', hsame.trans hcall⟩
  obtain ⟨p', hp', hcall⟩ :=
    run.inv (I := fun s => ∃ p, s.procs[i]? = some p ∧ p.call = c) hstep h
  obtain rfl := Option.some.inj (hp.symm.trans hp')
  exact hcall

/-- An export that has returned has the rows of a moment of the run, which it read first then. -/
theorem AppPool.Exported.moment {i : ℕ} {result : ExportResult}
    (run : Pool.Steps E.exec (AppPool.start E) G (AppPool.idle db now) s)
    (h : s.Exported i job result) :
    ∃ s₁ s₂ : AppPool, Pool.Steps E.exec (AppPool.start E) G (AppPool.idle db now) s₁
      ∧ s₁.Streams i job
      ∧ Pool.act E.exec (AppPool.start E) s₁ (.step i) = some s₂
      ∧ Pool.Steps E.exec (AppPool.start E) G s₂ s
      ∧ s.HasRows E i job result (s₁.rows E job)
      ∧ s₁.Open job.payload.keywords job.payload.status := by
  obtain ⟨R, hi⟩ := h
  have htraced : Pool.Traced (AppPool.start E) s := run.traced Pool.traced_idle
  obtain ⟨htype, rows, hmem, hcount, hwritten⟩ := reaches_exported (htraced.rest i _ hi)
  obtain ⟨s₁, s₂, c, k, hbefore, hi₁, ha, hafter, hrows⟩ := AppPool.moment run hmem
  obtain rfl : (AppCall.work job, R) = c :=
    AppPool.call_of_steps hafter (Pool.act_procs ha hi₁) hi
  rw [iterateForExport_trim] at hrows
  subst hrows
  have htraced₁ : Pool.Traced (AppPool.start E) s₁ := hbefore.traced Pool.traced_idle
  refine ⟨s₁, s₂, hbefore, ⟨R, _, k, hi₁, rfl⟩, ha, hafter, ⟨hcount, hwritten⟩,
    .working hi₁ ⟨htype, rfl, rfl⟩ fun ev hev hpid => ?_⟩
  exact reaches_streams htype rfl (htraced₁.rest i _ hi₁) _ (Pool.replies_of_mem hev hpid)

/-- In every run, an export that has returned counts and has written exactly the customers that its
filters select where it reads them. In a run that starts with no open export over the bound, and
whose steps all leave room for the open exports, it has no more rows than the bound. -/
theorem export_bounded (run : AppPool.Steps E (AppPool.idle db now) s) {i : ℕ}
    {result : ExportResult} (h : s.Exported i job result) :
    (∃ s₁ s₂ : AppPool, AppPool.Steps E (AppPool.idle db now) s₁ ∧ s₁.Streams i job
      ∧ Pool.act E.exec (AppPool.start E) s₁ (.step i) = some s₂ ∧ AppPool.Steps E s₂ s
      ∧ s.HasRows E i job result (s₁.rows E job))
    ∧ ((AppPool.idle db now).Bounded E → AppPool.RoomySteps E (AppPool.idle db now) s →
      result.rowCount ≤ CustomerTransferService.exportMaxRows) := by
  constructor
  · obtain ⟨s₁, s₂, hbefore, hstreams, ha, hafter, hrows, -⟩ := h.moment run
    exact ⟨s₁, s₂, hbefore, hstreams, ha, hafter, hrows⟩
  · intro hbounded hroomy
    obtain ⟨s₁, s₂, hbefore, -, -, -, hrows, hopen⟩ := h.moment hroomy
    have hinv : AppPool.Gated s₁ ∧ AppPool.Bounded E s₁ :=
      hbefore.inv (I := fun s => AppPool.Gated s ∧ AppPool.Bounded E s)
        (fun _ _ _ hs hG ha => ⟨hs.1.act ha, hs.2.act hs.1 hG.1 hG.2 ha⟩)
        ⟨Pool.follows_idle, hbounded⟩
    have hfits : s₁.db.Fits E job.payload.keywords job.payload.status := hinv.2 _ _ hopen
    rw [hrows.1, AppPool.rows, length_iterateForExport]
    exact hfits

namespace AppSample

/-- An export of all customers. -/
def queuedExport : JobData :=
  ⟨1, JobType.customerExport, .export [] none 1, AppSample.env.newJob ⟨0⟩⟩

/-- Two customers, and an export of them that waits. -/
def waiting : AppDb :=
  { AppSample.db with customer := CustomerSample.twoCustomers, job := ⟨[queuedExport], 2⟩ }

/-- A worker runs the export. -/
def exporting : List AppAct := .spawn (.work queuedExport, entropy) :: List.replicate 8 (.step 0)

/-- The export that a call has returned, and its result. -/
def exported? :
    Proc (AppCall × AppEntropy) AppStmt AppStmt.Res Int Failure AppResult →
      Option (JobData × ExportResult)
  | ⟨(.work job, _), .ret (.job (.exported result))⟩ => some (job, result)
  | _ => none

theorem exported?_eq_some
    {p : Proc (AppCall × AppEntropy) AppStmt AppStmt.Res Int Failure AppResult} {job : JobData}
    {result : ExportResult} (h : (job, result) ∈ exported? p) :
    ∃ R, p = ⟨(.work job, R), .ret (.job (.exported result))⟩ := by
  unfold exported? at h
  split at h
  · obtain ⟨rfl, rfl⟩ := Prod.mk.inj (Option.some.inj h)
    exact ⟨_, rfl⟩
  · cases h

/-- Workers take waiting jobs and work on exports. -/
def works (s : AppPool) : AppAct → Bool
  | .spawn (.work job, _) => job ∈ s.db.job.rows && job.state.status ≠ JobStatus.completed
  | .step i => (s.procs[i]?.bind (·.rest.statement?)).any fun
    | .export _ => true
    | _ => false
  | _ => false

theorem works_sound (s : AppPool) (a : AppAct) (h : works s a = true) :
    s.Admits env a ∧ s.Room env a := by
  cases a with
  | spawn c =>
    obtain ⟨call, R⟩ := c
    cases call with
    | work job =>
      simp only [works, Bool.and_eq_true, decide_eq_true_eq] at h
      exact ⟨h.1, fun hcompleted => absurd hcompleted h.2⟩
    | _ => cases h
  | step i =>
    refine ⟨trivial, fun c op k hi => ?_⟩
    simp only [works, hi, Option.bind_some, Prog.statement?, Option.any_some] at h
    cases op with
    | «export» op => trivial
    | _ => cases h
  | _ => cases h

theorem bounded_waiting : (AppPool.idle waiting 0).Bounded env := by
  intro keywords status hopen
  cases hopen with
  | queued hjob hexports hstatus =>
    obtain rfl := List.mem_singleton.mp hjob
    rw [← hexports.keywords, ← hexports.status]
    show CustomerModel.countGet _ _ _ _ ≤ _
    decide +kernel
  | counted hi => simp [AppPool.idle] at hi
  | working hi => simp [AppPool.idle] at hi

end AppSample

open AppSample in
theorem export_bounded_sample : ∃ (s : AppPool) (result : ExportResult),
    s.Exported 0 queuedExport result ∧ result.rowCount = 2
      ∧ (∃ s₁ s₂ : AppPool, AppPool.Steps env (AppPool.idle waiting 0) s₁
        ∧ s₁.Streams 0 queuedExport
        ∧ Pool.act env.exec (AppPool.start env) s₁ (.step 0) = some s₂ ∧ AppPool.Steps env s₂ s
        ∧ s.HasRows env 0 queuedExport result (s₁.rows env queuedExport))
      ∧ result.rowCount ≤ CustomerTransferService.exportMaxRows := by
  have h : ∃ s ∈ Pool.acts env.exec (AppPool.start env) (fun s a => works s a = true) exporting
      (AppPool.idle waiting 0), ∃ p ∈ s.procs[0]?, ∃ r ∈ exported? p,
      r.1 = queuedExport ∧ r.2.rowCount = 2 := by
    decide +kernel
  obtain ⟨s, hs, p, hp, ⟨job, result⟩, hexported, rfl, hcount⟩ := h
  have hroomy : AppPool.RoomySteps env (AppPool.idle waiting 0) s :=
    (Pool.steps_of_acts hs).mono works_sound
  obtain ⟨R, rfl⟩ := exported?_eq_some hexported
  obtain ⟨hrows, hbound⟩ := export_bounded (hroomy.mono fun _ _ h => h.1) ⟨R, hp⟩
  exact ⟨s, result, ⟨R, hp⟩, hcount, hrows, hbound bounded_waiting hroomy⟩

/-! ## More rows than the bound -/

/-- A call that is admitted can run to its end alone. -/
theorem AppPool.alone {c : AppCall × AppEntropy} (h : s.Admits E (.spawn c)) :
    ∃ s' : AppPool, AppPool.Steps E s s' ∧ s'.now = s.now
      ∧ s'.db = ((AppPool.start E c).run E.exec s.now s.db).2
      ∧ ∀ a, ((AppPool.start E c).run E.exec s.now s.db).1 = .ok a →
        s'.procs[s.procs.length]? = some ⟨c, .ret a⟩ := by
  obtain ⟨s', run, hdb, hnow, hprocs⟩ := Pool.spawn_solo E.exec (AppPool.start E)
    (G := AppPool.Admits E) (fun _ _ => trivial) h
  refine ⟨s', run, hnow, hdb, fun a ha => ?_⟩
  rw [hprocs, ha]
  simp

/-- The statement is one on accounts. -/
def AppStmt.isAuth : AppStmt → Bool
  | .auth _ => true
  | _ => false

theorem AppStmt.isAuth_iff {op : AppStmt} : op.isAuth = true ↔ ∃ op', op = .auth op' := by
  cases op <;> simp [AppStmt.isAuth]

/-- As long as a run has issued statements on accounts only, the customers and the queue are those
of its start. -/
theorem AppPool.steps_auth (run : AppPool.Steps E (AppPool.idle db now) s)
    (h : ∀ ev ∈ s.log, ev.op.isAuth = true) :
    s.db.customer = db.customer ∧ s.db.job = db.job := by
  have hinv := run.inv (I := fun s => (∀ ev ∈ s.log, ev.op.isAuth = true) →
    s.db.customer = db.customer ∧ s.db.job = db.job) ?_ fun _ => ⟨rfl, rfl⟩
  · exact hinv h
  · intro s a s' hs _ ha hlog'
    obtain ⟨hcustomer, hjob⟩ := hs fun ev hev => hlog' ev (Pool.act_log ha hev)
    rcases Pool.act_cases ha with ⟨c, rfl, rfl⟩ | ⟨t, rfl, rfl⟩ | ⟨j, c, op, k, rfl, hj, rfl⟩ |
      ⟨j, e, c, op, k, rfl, hj, rfl⟩
    · exact ⟨hcustomer, hjob⟩
    · exact ⟨hcustomer, hjob⟩
    · obtain ⟨op, rfl⟩ := AppStmt.isAuth_iff.mp (hlog' ⟨s.log.length, j, op, _⟩ List.mem_cons_self)
      exact ⟨hcustomer, hjob⟩
    · exact ⟨hcustomer, hjob⟩

theorem run_requestExport {dto : CustomerExportRequest} (userId : ℕ) (i : Int)
    (h : db.Fits E dto.keywords dto.status) :
    (CustomerTransferService.requestExport dto userId).run E.exec i db =
      (.ok (.queuedExport db.job.autoIncrement "pending"
          (CustomerModel.countGet E.customer db.customer.customer dto.keywords dto.status)),
        (E.exec (.dispatch JobType.customerExport
          (.export dto.keywords dto.status userId)) i db).2) := by
  simp only [CustomerTransferService.requestExport, Prog.stmt_bind, Prog.run_call, AppEnv.exec,
    CustomerEnv.exec, Prog.resume_ok, if_neg (not_lt.mpr h)]
  rfl

/-- A customer whose name is not taken and who has no email is inserted. -/
theorem run_create {F : CustomerEnv} {dto : CustomerData} {db : CustomerDb} (i : Int)
    (hname : CustomerModel.existsByName F db.customer dto.name none = false)
    (hemail : dto.email = none) :
    ((CustomerService.create F dto).run F.exec i db).2.customer =
      (CustomerModel.create (F.zone.date i) db.customer dto).2 := by
  have hunique : (CustomerService.assertUnique dto.name dto.email none).run F.exec i db =
      (.ok (), db) := by
    simp only [CustomerService.assertUnique, hemail, Prog.stmt_bind, Prog.run_call,
      CustomerEnv.exec, hname, Prog.resume_ok]
    rfl
  unfold CustomerService.create
  rw [Prog.run_bind, hunique]
  simp only [Prog.stmt_bind, Prog.run_call]
  -- What follows the insert leaves the table as it is.
  exact (Prog.Always.of_only (I := fun db' : CustomerDb => db'.customer = _)
    (harmless_bump_get _) (fun op db' hop h => (customer_exec hop.1 i db').trans h)
      rfl).final

namespace AppSample

/-- A customer named by the digits of the id. -/
def numbered (id : ℕ) : CustomerRow :=
  NewCustomer.row { CustomerSample.customer (natString id) with
    avatarPath := none, createdAt := ⟨0⟩, updatedAt := ⟨0⟩ } id

def numberedCustomers (n : ℕ) : Table CustomerRow :=
  ⟨(List.range n).map fun n => numbered (n + 1), n + 1⟩

/-- As many customers as an export may have. -/
def crowded : AppDb :=
  { AppSample.db with customer := { AppSample.db.customer with
      customer := numberedCustomers CustomerTransferService.exportMaxRows } }

/-- The request of an export of all customers. -/
def exportCustomers : Request := post "/customer/export" (ascii "Bearer " ++ claims.email) []

theorem signs_in : ∃ s : AppPool, AppPool.Steps env (AppPool.idle crowded 0) s ∧ s.now = 0
    ∧ s.db.customer = crowded.customer ∧ s.db.job = crowded.job
    ∧ AppEvent.Issued s.log claims claims.email := by
  have h : ∃ s ∈ Pool.acts env.exec (AppPool.start env) (fun s a => admits s a = true)
      (schedule.take 6) (AppPool.idle crowded 0), s.now = 0 ∧ (∀ ev ∈ s.log, ev.op.isAuth = true)
        ∧ admits s (.spawn (.request 0 exportCustomers, entropy)) = true := by
    decide +kernel
  obtain ⟨s, hs, hnow, hauth, hadmits⟩ := h
  have run := (Pool.steps_of_acts hs).mono admits_sound
  obtain ⟨hcustomer, hjob⟩ := AppPool.steps_auth run hauth
  have hpresented : JwtHelper.presented exportCustomers = claims.email := by decide +kernel
  have hissued : AppEvent.Issued s.log claims (JwtHelper.presented exportCustomers) :=
    (admits_sound s _ hadmits).2 0 claims (by decide +kernel)
  exact ⟨s, run, hnow, hcustomer, hjob, hpresented ▸ hissued⟩

theorem count_numbered (n : ℕ) :
    CustomerModel.countGet env.customer (numberedCustomers n) [] none = n := by
  have hall : CustomerModel.selected env.customer (numberedCustomers n) [] none =
      (numberedCustomers n).rows := by
    refine List.filter_eq_self.mpr fun r hr => ?_
    obtain ⟨n, -, rfl⟩ := List.mem_map.mp hr
    rfl
  rw [CustomerModel.countGet, hall, numberedCustomers, List.length_map, List.length_range]

theorem not_taken_numbered (n : ℕ) :
    CustomerModel.existsByName env.customer (numberedCustomers n) (ascii "Ann") none = false := by
  refine decide_eq_false (Table.not_affected_pos.mpr fun r hr => ?_)
  obtain ⟨n, -, rfl⟩ := List.mem_map.mp hr
  have hname : natString (n + 1) ≠ ascii "Ann" := by
    intro heq
    have hdigit : isDigit 65 = true := isDigit_natString (n := n + 1) (by rw [heq]; decide)
    cases hdigit
  have hweight : CustomerModel.sqlEq env.customer (natString (n + 1)) (ascii "Ann") = false :=
    decide_eq_false hname
  simp [CustomerModel.taken, numbered, NewCustomer.row, CustomerSample.customer, hweight]

/-- The user of the token. -/
def user : RequestUser := JwtHelper.userFromClaims claims

theorem run_exportCustomers {db : AppDb} (h : db.Fits env [] none) :
    ((AppPool.start env (.request 0 exportCustomers, entropy)).run env.exec 0 db).2 =
      (env.exec (.dispatch JobType.customerExport (.export [] none user.id)) 0 db).2 := by
  have hroute : findRoute exportCustomers.method exportCustomers.path =
      some (.of "POST" "/customer/export" .export [.authentication], none) := by decide +kernel
  have hdto : CustomerExportRequest.fromRequest exportCustomers.body = ⟨[], none⟩ := by
    decide +kernel
  have haction : Action.export.run env ⟨exportCustomers, some user, none, entropy⟩ =
      Controller.attempt env (CustomerTransferService.requestExport ⟨[], none⟩ user.id)
        fun result => JsonResponse.success env result "Export queued." [] HttpStatus.accepted := by
    show Controller.CustomerTransfer.export env _ = _
    unfold Controller.CustomerTransfer.export Controller.authenticated Controller.validated
    simp only [hdto]
    rfl
  rw [AppPool.start, AppCall.prog, Prog.run_map]
  simp only
  rw [App.run_handle_db hroute (by decide +kernel : _ = some user) (.inl rfl)]
  simp only [Route.of, Option.map_none]
  rw [haction, run_attempt_db, run_requestExport _ _ h]

/-- What `createCustomer` inserts. -/
def created : CustomerData := (CustomerCreateRequest.fromRequest createCustomer.body).toArray

theorem run_createCustomer {db : AppDb}
    (h : CustomerModel.existsByName env.customer db.customer.customer (ascii "Ann") none = false) :
    let db' := ((AppPool.start env (.request 0 createCustomer, entropy)).run env.exec 0 db).2
    db'.customer.customer = (CustomerModel.create ⟨0⟩ db.customer.customer created).2
      ∧ db'.job = db.job := by
  have hroute : findRoute createCustomer.method createCustomer.path =
      some (.of "POST" "/customer" .create [adminOnly, .authentication], none) := by decide +kernel
  have hvalid : (CustomerCreateRequest.fromRequest createCustomer.body).validate env.customer =
      [] := by decide +kernel
  have hname : created.name = ascii "Ann" := by decide +kernel
  have haction : Action.create.run env ⟨createCustomer, some user, none, entropy⟩ =
      Controller.attempt env (onCustomers (CustomerService.create env.customer created))
        fun customer => JsonResponse.success env (.customer customer) "Customer created." []
          HttpStatus.created := by
    show Controller.Customer.create env _ = _
    unfold Controller.Customer.create Controller.validated
    simp only [hvalid, if_true]
    rfl
  rw [AppPool.start, AppCall.prog, Prog.run_map]
  simp only
  rw [App.run_handle_db hroute (by decide +kernel : _ = some user) (.inr ⟨rfl, rfl⟩)]
  simp only [Route.of, Option.map_none]
  rw [haction, run_attempt_db, run_onCustomers]
  exact ⟨run_create 0 (by rwa [hname]) rfl, rfl⟩

theorem count_created (t : Table CustomerRow) :
    CustomerModel.countGet env.customer (CustomerModel.create ⟨0⟩ t created).2 [] none =
      CustomerModel.countGet env.customer t [] none + 1 := by
  have hnew : ∀ id, CustomerModel.matchesFilters env.customer [] none (NewCustomer.row
      { created with avatarPath := none, createdAt := ⟨0⟩, updatedAt := ⟨0⟩ } id) = true :=
    fun _ => rfl
  simp only [CustomerModel.countGet, CustomerModel.selected, CustomerModel.create, Table.insert,
    List.filter_append, List.length_append, List.filter_cons, List.filter_nil, hnew]
  rfl

/-- The token of the administrator is no forgery once it was issued. -/
theorem unforged {log : List AppEvent} {request : Request}
    (h : AppEvent.Issued log claims claims.email)
    (hpresented : JwtHelper.presented request = claims.email) : Unforged env log request := by
  intro now c hverify
  rw [hpresented] at hverify ⊢
  cases hverify
  exact h

theorem run_work {s : AppPool} {job : JobData} (htype : job.type = JobType.customerExport) :
    ∃ result, ((AppPool.start env (.work job, entropy)).run env.exec s.now s.db).1 =
        .ok (.job (.exported result))
      ∧ result.rowCount = CustomerModel.countGet env.customer s.db.customer.customer
        job.payload.keywords job.payload.status := by
  rw [start_work htype, Prog.run_map, Prog.run_map, run_onExports,
    CustomerExportJob.run_handle, iterateForExport_trim]
  exact ⟨_, rfl, length_iterateForExport⟩

end AppSample

open AppSample in
/-- After the count of an export as large as may be, a customer is created before a worker runs
it. -/
theorem exported_above_bound : ∃ (s : AppPool) (i : ℕ) (job : JobData) (result : ExportResult),
    AppPool.Steps env (AppPool.idle crowded 0) s ∧ s.Exported i job result
      ∧ CustomerTransferService.exportMaxRows < result.rowCount := by
  obtain ⟨s₁, run₁, hnow₁, hcustomer₁, hjob₁, n, pid, hissued₁⟩ := signs_in
  -- The export is counted and queued.
  have hfits : s₁.db.Fits env [] none := by
    rw [AppDb.Fits, hcustomer₁]
    exact (count_numbered _).le
  obtain ⟨s₂, run₂, hnow₂, hdb₂, -⟩ := AppPool.alone (E := env) (s := s₁)
    (c := (.request 0 exportCustomers, entropy))
    ⟨hnow₁.symm, unforged ⟨n, pid, hissued₁⟩ (by decide +kernel)⟩
  rw [hnow₁, run_exportCustomers hfits] at hdb₂
  have hcustomer₂ : s₂.db.customer.customer =
      numberedCustomers CustomerTransferService.exportMaxRows := by
    rw [hdb₂]
    change s₁.db.customer.customer = _
    rw [hcustomer₁, crowded]
  obtain ⟨job, hjob₂, hexports⟩ : ∃ job ∈ s₂.db.job.rows, job.Exports [] none := by
    rw [hdb₂]
    exact ⟨_, Table.mem_insert.mpr (.inr rfl), rfl, rfl, rfl⟩
  -- One more customer is created.
  obtain ⟨s₃, run₃, hnow₃, hdb₃, -⟩ := AppPool.alone (E := env) (s := s₂)
    (c := (.request 0 createCustomer, entropy))
    ⟨(hnow₂.trans hnow₁).symm, unforged ⟨n, pid, run₂.log hissued₁⟩ (by decide +kernel)⟩
  have hfree : CustomerModel.existsByName env.customer s₂.db.customer.customer (ascii "Ann") none =
      false := by
    rw [hcustomer₂]
    exact not_taken_numbered _
  obtain ⟨hcustomer₃, hjob₃⟩ := run_createCustomer hfree
  rw [hnow₂, hnow₁] at hdb₃
  rw [← hdb₃] at hcustomer₃ hjob₃
  -- A worker takes the job.
  obtain ⟨result, hresult, hcount⟩ := run_work (s := s₃) hexports.type
  obtain ⟨s₄, run₄, -, -, hexported⟩ := AppPool.alone (E := env) (s := s₃)
    (c := (.work job, entropy)) (show job ∈ s₃.db.job.rows from hjob₃ ▸ hjob₂)
  refine ⟨s₄, s₃.procs.length, job, result, run₁.trans (run₂.trans (run₃.trans run₄)),
    ⟨entropy, hexported _ hresult⟩, ?_⟩
  rw [hcount, hexports.keywords, hexports.status, hcustomer₃, hcustomer₂, count_created,
    count_numbered]
  exact Nat.lt_succ_self _

end SlimStarter
