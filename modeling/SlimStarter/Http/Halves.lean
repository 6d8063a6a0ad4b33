import SlimStarter.Lib.Purge
import SlimStarter.Http.Access

/-!
# The two halves of the application

No call reads the accounts or the sessions and changes customers, their cache, files or jobs, nor
the other way round: who a user is comes with the token, not from the tables. So the application is
two systems side by side. What is left of a run without the calls that are not of one half is a run
of that half, with the same tables and the same results (`halves_separate`).
-/

namespace SlimStarter

open AppPart
open Footprint (Within Agree)

inductive AppHalf where
  | session
  | record
deriving DecidableEq, Repr

def AppHalf.parts : AppHalf → Finset AppPart
  | session => {accounts, sessions}
  | record => {customers, cache, files, jobs}

/-- The call reads and writes nothing outside of the half. -/
def AppCall.ofHalf (E : AppEnv) (half : AppHalf) (call : AppCall) : Bool :=
  call.footprint E ≤ ⟨half.parts, half.parts⟩

variable {E : AppEnv} {half : AppHalf}

/-- An action that is not of a half changes nothing of it. -/
theorem Action.disjoint_of_not_le (action : Action) (half : AppHalf)
    (h : ¬ action.footprint ≤ ⟨half.parts, half.parts⟩) :
    Disjoint action.footprint.writes half.parts := by
  revert h
  cases action <;> cases half <;> decide

theorem AppCall.disjoint_of_not_ofHalf {call : AppCall} (h : call.ofHalf E half = false) :
    Disjoint (call.footprint E).writes half.parts := by
  have hle : ¬ call.footprint E ≤ ⟨half.parts, half.parts⟩ := of_decide_eq_false h
  cases call with
  | request arrival received =>
    simp only [AppCall.footprint, Request.footprint] at hle ⊢
    cases hroute : received.route with
    | none => exact Finset.disjoint_empty_left _
    | some route =>
      simp only [hroute] at hle ⊢
      split_ifs at hle ⊢
      · exact route.action.disjoint_of_not_le half hle
      · exact Finset.disjoint_empty_left _
  | work job =>
    simp only [AppCall.footprint, JobData.footprint] at hle ⊢
    split_ifs at hle ⊢
    all_goals
      revert hle
      cases half <;> decide
  | record jobId state =>
    revert hle
    cases half <;> exact of_decide_eq_true rfl

/-- Every run of the application, from any store, has a run that only the calls of one half are in,
from any store with the same tables of this half: it ends with the same tables of the half, and each
of its calls with the same result or at the same statement. -/
theorem halves_separate (half : AppHalf) {db db' : AppDb} {now : Int} {s : AppPool}
    (hdb : Agree view half.parts db db')
    (run : Pool.Steps E.exec (AppPool.start E) AppPool.Arrives (AppPool.idle db now) s) :
    ∃ s', Pool.Steps E.exec (AppPool.start E) AppPool.Arrives (AppPool.idle db' now) s'
      ∧ Agree view half.parts s.db s'.db ∧ s'.now = s.now
      ∧ s'.procs = s.procs.filter fun p => p.call.1.ofHalf E half := by
  let g (now : Int) (c : AppCall × AppEntropy) : Prop :=
    ∀ arrival received, c.1 = .request arrival received → arrival = now
  have harrives : ∀ (s : AppPool) a, s.Arrives a ↔ Pool.Calls g s a := by
    rintro s (⟨⟨arrival, received⟩ | job | ⟨jobId, state⟩, R⟩ | i | ⟨i, e⟩ | t)
    · constructor
      · rintro h c ⟨⟩ arrival received ⟨⟩
        exact h
      · exact fun h => h _ rfl _ _ rfl
    all_goals
      simp [AppPool.Arrives, Pool.Calls, g]
  have hwithin : ∀ now c, g now c →
      Within AppStmt.footprint (c.1.footprint E) ((AppPool.start E c).settle now) :=
    fun now c hc => AppCall.within (s := ⟨db, now, [], []⟩)
      ((harrives _ _).mpr fun c' hc' => Act.spawn.inj hc' ▸ hc)
  obtain ⟨s', hrun, hpurged⟩ := footprint_sound.purge (fun c => c.1.footprint E) half.parts
    (fun c => c.1.ofHalf E half) hwithin (fun c hc => of_decide_eq_true hc)
    (fun c hc => AppCall.disjoint_of_not_ofHalf hc) hdb
    (run.mono fun s a ha => (harrives s a).mp ha)
  exact ⟨s', hrun.mono fun s a ha => (harrives s a).mpr fun c hc => (ha c hc).1, hpurged.store,
    hpurged.now, hpurged.procs⟩

open AppSample in
/-- Without the customers, and without the request that inserts one, the sign-in is as far. -/
theorem halves_separate_sample : ∃ s s' : AppPool,
    Pool.Steps env.exec (AppPool.start env) AppPool.Arrives
        (AppPool.idle { db with customer := { CustomerSample.db with customer := ⟨[], 9⟩ } } 0) s'
      ∧ s.procs.length = 2
      ∧ s'.procs.map (·.call.1.ofHalf env .session) = [true]
      ∧ s'.db.auth = s.db.auth := by
  have h : ∃ s ∈ Pool.acts env.exec (AppPool.start env) (fun s a => admits s a = true) schedule
      (AppPool.idle db 0), s.procs.length = 2
        ∧ (s.procs.filter fun p => p.call.1.ofHalf env .session).map
          (·.call.1.ofHalf env .session) = [true] := by
    decide +kernel
  obtain ⟨s, hs, hlength, hhalf⟩ := h
  have run := (Pool.steps_of_acts hs).mono arrives_of_admits
  have hdb : Agree view AppHalf.session.parts db
      { db with customer := { CustomerSample.db with customer := ⟨[], 9⟩ } } := by
    intro x hx
    cases x <;> first | rfl | exact absurd hx (by decide)
  obtain ⟨s', hrun, hagree, -, hprocs⟩ := halves_separate .session hdb run
  refine ⟨s, s', hrun, hlength, hprocs ▸ hhalf, ?_⟩
  have haccounts := hagree accounts (by decide)
  have hsessions := hagree sessions (by decide)
  exact congrArg₂ AuthDb.mk haccounts.symm hsessions.symm

end SlimStarter
