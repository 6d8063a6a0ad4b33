import SlimStarter.Customer.AvatarKept

/-!
# Avatars that are leaked

After a run of uploads, removals and deletions every avatar file is the avatar of a live customer
(`no_avatar_leaked`), where each write finds the avatar that its call has read, or none, an upload
finds its customer alive, and no statement fails between the store of a file and the removal of the
one before it. Two uploads for one customer at a time leak a file (`avatar_leaked`).

`FilesOwned` is the invariant: an avatar file is the avatar of a live customer, or in the hands of a
call that is about to write its path or to remove it.
-/

namespace SlimStarter

open UploadHelper (absolutePath isS3)

/-- The file is below `uploads/avatars`. -/
def InAvatars (E : CustomerEnv) (file : Bytes) : Prop :=
  E.uploadDirectory ++ ascii "/avatars/" <+: file

instance (E : CustomerEnv) (file : Bytes) : Decidable (InAvatars E file) := by
  unfold InAvatars
  infer_instance

namespace CustomerDb

/-- The file is the avatar of a live customer. -/
def Named (E : CustomerEnv) (db : CustomerDb) (file : Bytes) : Prop :=
  ∃ path ∈ db.liveAvatars, absolutePath E path = some file

/-- The live row of `id`, if there is one, has the avatar `previous` or none. -/
def UpToDate (db : CustomerDb) (id : ℕ) (previous : Option Bytes) : Prop :=
  ∀ r ∈ db.customer.rows, r.deletedAt = none → r.id = id →
    CustomerService.avatarPath r = none ∨ CustomerService.avatarPath r = previous

instance (E : CustomerEnv) (db : CustomerDb) (file : Bytes) : Decidable (db.Named E file) := by
  unfold Named
  infer_instance

instance (db : CustomerDb) (id : ℕ) (previous : Option Bytes) :
    Decidable (db.UpToDate id previous) := by
  unfold UpToDate
  infer_instance

variable {E : CustomerEnv} {db : CustomerDb} {id : ℕ} {previous : Option Bytes} {file : Bytes}

theorem named_iff : db.Named E file ↔ ∃ x p, db.HasAvatar x p ∧ absolutePath E p = some file := by
  simp only [Named, mem_liveAvatars]
  constructor
  · rintro ⟨p, ⟨x, hx⟩, hp⟩
    exact ⟨x, p, hx, hp⟩
  · rintro ⟨x, p, hx, hp⟩
    exact ⟨p, ⟨x, hx⟩, hp⟩

/-- What a write may take from a customer is what its call has read. -/
theorem UpToDate.eq (h : db.UpToDate id previous) {p : Bytes} (hp : db.HasAvatar id p)
    (hfile : absolutePath E p = some file) : previous = some p := by
  obtain ⟨r, hr, hlive, hid, hpath⟩ := hp
  have hne : p ≠ [] := by
    rintro rfl
    cases hfile
  have hread : CustomerService.avatarPath r = some p := by
    simp [CustomerService.avatarPath, hpath, hne]
  rcases h r hr hlive hid with hnone | hprevious
  · rw [hread] at hnone
    cases hnone
  · exact hprevious.symm.trans hread

end CustomerDb

namespace AvatarPhase

/-- The file that the call is about to write the path of, or to remove. -/
def file (E : CustomerEnv) : AvatarPhase → Option Bytes
  | stored _ path _ => absolutePath E path
  | dropping file => file
  | _ => none

/-- The write that the call stands at takes no avatar but the one the call has read, and an upload
finds its customer alive. -/
def Timely (db : CustomerDb) : AvatarPhase → Prop
  | holding id none previous => db.UpToDate id previous
  | stored id _ previous => db.UpToDate id previous ∧ CustomerModel.exists db.customer id = true
  | _ => True

/-- The call has no file to take care of. -/
def Clear (db : CustomerDb) : AvatarPhase → Prop
  | stored .. => False
  | dropping (some file) => db.files file = none
  | _ => True

instance (db : CustomerDb) (φ : AvatarPhase) : Decidable (φ.Timely db) := by
  unfold Timely
  split <;> infer_instance

instance (db : CustomerDb) (φ : AvatarPhase) : Decidable (φ.Clear db) := by
  unfold Clear
  split <;> infer_instance

theorem file_of_closed {E : CustomerEnv} {φ : AvatarPhase} (h : φ.closed) : φ.file E = none := by
  cases φ with
  | stored => exact h.elim
  | dropping file =>
    cases file with
    | none => rfl
    | some file => exact h.elim
  | _ => rfl

end AvatarPhase

/-! ## The invariant -/

/-- The files of the set `F` that exist are avatars, or in the hands of a call. -/
def FilesOwned (E : CustomerEnv) (F : Set Bytes) (db : CustomerDb) (Φ : ℕ → AvatarPhase) : Prop :=
  ∀ f ∈ F, db.files f ≠ none → db.Named E f ∨ ∃ i, (Φ i).file E = some f

variable {E : CustomerEnv} {F : Set Bytes} {db db' : CustomerDb} {Φ : ℕ → AvatarPhase}
variable {φ : AvatarPhase} {i : ℕ}

namespace FilesOwned

variable {id : ℕ} {previous : Option Bytes} {file : Bytes}

/-- A call goes on to the phase `φ`, and takes care of what it creates, of what it takes from the
table, and of what it had to take care of. -/
theorem update (h : FilesOwned E F db Φ)
    (hcreated : ∀ f, db'.files f ≠ none → db.files f ≠ none ∨ φ.file E = some f)
    (htaken : ∀ f, db.Named E f → db'.Named E f ∨ φ.file E = some f)
    (hheld : ∀ f, (Φ i).file E = some f → db'.files f ≠ none →
      db'.Named E f ∨ φ.file E = some f) : FilesOwned E F db' (Function.update Φ i φ) := by
  intro f hf hexists
  have hself : ∀ {f}, φ.file E = some f → ∃ j, (Function.update Φ i φ j).file E = some f :=
    fun hφ => ⟨i, by rwa [Function.update_self]⟩
  rcases hcreated f hexists with hold | hφ
  · rcases h f hf hold with hnamed | ⟨j, hj⟩
    · exact (htaken f hnamed).imp_right hself
    · by_cases hij : j = i
      · subst hij
        exact (hheld f hj hexists).imp_right hself
      · exact .inr ⟨j, by rwa [Function.update_of_ne hij]⟩
  · exact .inr (hself hφ)

theorem skip (h : FilesOwned E F db Φ) (hclear : ∀ f, (Φ i).file E = some f → db.files f = none) :
    FilesOwned E F db (Function.update Φ i φ) :=
  h.update (fun _ => .inl) (fun _ => .inl) fun f hf hexists => absurd (hclear f hf) hexists

theorem move (h : FilesOwned E F db Φ) {p contents : Bytes}
    (hφ : Φ i = .holding id (some p) previous) (hfile : absolutePath E p = some file) :
    FilesOwned E F (db.withFile file (some contents))
      (Function.update Φ i (.stored id p previous)) := by
  refine h.update (fun f hexists => ?_) (fun f => .inl) fun f hf => by rw [hφ] at hf; cases hf
  by_cases heq : f = file
  · exact .inr (heq ▸ hfile)
  · exact .inl (by simpa [CustomerDb.withFile, heq] using hexists)

/-- A call writes its row, and is about to remove the file it has read, unless it wrote the same. -/
theorem write (h : FilesOwned E F db Φ) (path : Option Bytes) (hfiles : db'.files = db.files)
    (hothers : ∀ x p, db.HasAvatar x p → x ≠ id → db'.HasAvatar x p)
    (huptodate : db.UpToDate id previous) (hset : ∀ p, path = some p → db'.HasAvatar id p)
    (hheld : ∀ f, (Φ i).file E = some f → db'.Named E f) :
    FilesOwned E F db' (Function.update Φ i
      (.dropping (AvatarPhase.fileOf E (previous.filter (some · ≠ path))))) := by
  refine h.update (fun f hexists => .inl (by rwa [← hfiles])) (fun f hnamed => ?_)
    fun f hf _ => .inl (hheld f hf)
  obtain ⟨x, p, hx, hpf⟩ := CustomerDb.named_iff.mp hnamed
  by_cases hid : x = id
  · subst hid
    obtain rfl := huptodate.eq hx hpf
    by_cases hsame : path = some p
    · exact .inl (CustomerDb.named_iff.mpr ⟨x, p, hset p hsame, hpf⟩)
    · refine .inr ?_
      simp [AvatarPhase.file, AvatarPhase.fileOf, Option.filter, Ne.symm hsame, hpf]
  · exact .inl (CustomerDb.named_iff.mpr ⟨x, p, hothers x p hx hid, hpf⟩)

theorem unlink (h : FilesOwned E F db Φ) (hφ : Φ i = .dropping (some file)) :
    FilesOwned E F (db.withFile file none) (Function.update Φ i φ) := by
  refine h.update (fun f hexists => .inl ?_) (fun f => .inl) fun f hf hexists => ?_
  · by_cases heq : f = file
    · simp [CustomerDb.withFile, heq] at hexists
    · simpa [CustomerDb.withFile, heq] using hexists
  · rw [hφ] at hf
    obtain rfl := Option.some.inj hf
    simp [CustomerDb.withFile] at hexists

theorem congr (h : FilesOwned E F db Φ) (hcustomer : db'.customer = db.customer)
    (hfiles : db'.files = db.files) : FilesOwned E F db' Φ := by
  intro f hf hexists
  rw [hfiles] at hexists
  refine (h f hf hexists).imp_left ?_
  rintro ⟨p, hp, hpf⟩
  exact ⟨p, by rwa [CustomerDb.liveAvatars, hcustomer], hpf⟩

theorem step (h : FilesOwned E F db Φ) (hφ : Φ i = φ) (htimely : φ.Timely db) {φ' : AvatarPhase}
    (hstep : AvatarStep E db φ db' φ') : FilesOwned E F db' (Function.update Φ i φ') := by
  have hnothing : φ.file E = none → ∀ f, (Φ i).file E ≠ some f := by
    intro hnone f hf
    rw [hφ, hnone] at hf
    cases hf
  cases hstep with
  | missing => exact h.skip fun f hf => absurd hf (hnothing rfl f)
  | read => exact h.skip fun f hf => absurd hf (hnothing rfl f)
  | move hfile => exact h.move hφ hfile
  | @clear id previous _ hfiles _ hkept =>
    have hdropped := h.write (i := i) none hfiles hkept htimely (by simp)
      fun f hf => absurd hf (hnothing rfl f)
    rwa [filter_ne_none] at hdropped
  | @set id path previous _ hfiles _ hkept hset =>
    have hgiven := hset htimely.2
    have hdropped := h.write (i := i) (some path) hfiles hkept htimely.1
      (fun p hp => Option.some.inj hp ▸ hgiven)
      fun f hf => CustomerDb.named_iff.mpr ⟨id, path, hgiven, by rwa [hφ] at hf⟩
    rwa [filter_ne_some] at hdropped
  | there =>
    rw [← hφ, Function.update_eq_self]
    exact h
  | gone hgone =>
    refine h.skip fun f hf => ?_
    rw [hφ] at hf
    obtain rfl := Option.some.inj hf
    exact hgone
  | unlink => exact h.unlink hφ
  | harmless hcustomer hfiles =>
    exact (h.congr hcustomer hfiles).skip fun f hf => absurd hf (hnothing rfl f)

/-- A statement fails whose call has no file to take care of. -/
theorem fail (h : FilesOwned E F db Φ) (hclear : (Φ i).Clear db) :
    FilesOwned E F db (Function.update Φ i φ) := by
  refine h.skip fun f hf => ?_
  cases hφ : Φ i with
  | stored => rw [hφ] at hclear; exact hclear.elim
  | dropping file =>
    rw [hφ] at hf hclear
    obtain rfl : file = some f := hf
    exact hclear
  | _ => rw [hφ] at hf; cases hf

end FilesOwned

/-! ## Runs -/

/-- Calls that change avatars, and nothing else. -/
def CustomerPool.OnlyAvatars (_ : CustomerPool) : CustomerAct → Prop
  | .spawn c => ChangesAvatar c
  | _ => True

instance (s : CustomerPool) (a : CustomerAct) : Decidable (s.OnlyAvatars a) :=
  match a with
  | .spawn c => inferInstanceAs (Decidable (ChangesAvatar c))
  | .step _ | .fail .. | .tick _ => inferInstanceAs (Decidable True)

/-- Calls that change avatars. Each write is timely, and a statement fails only where its call has
no file to take care of. -/
def CustomerPool.Orderly (E : CustomerEnv) (s : CustomerPool) : CustomerAct → Prop
  | .spawn c => ChangesAvatar c
  | .step i => (s.avatarPhases E i).Timely s.db
  | .fail i _ => (s.avatarPhases E i).Clear s.db
  | .tick _ => True

instance (s : CustomerPool) (a : CustomerAct) : Decidable (s.Orderly E a) :=
  match a with
  | .spawn c => inferInstanceAs (Decidable (ChangesAvatar c))
  | .step i => inferInstanceAs (Decidable ((s.avatarPhases E i).Timely s.db))
  | .fail i _ => inferInstanceAs (Decidable ((s.avatarPhases E i).Clear s.db))
  | .tick _ => inferInstanceAs (Decidable True)

variable {s s' : CustomerPool} {a : CustomerAct}

theorem FilesOwned.act (hfollows : Pool.Follows (avatarMonitor E) AvatarPhase.closed
      AvatarPhase.initial s)
    (h : FilesOwned E F s.db (s.avatarPhases E)) (hG : s.Orderly E a)
    (ha : Pool.act E.exec (CustomerPool.start E) s a = some s') :
    FilesOwned E F s'.db (s'.avatarPhases E) := by
  obtain ⟨c, rfl, hdb, hphases⟩ | ⟨t, rfl, hdb, hphases⟩ | ⟨i, op, rfl, hallowed, hdb, hphases⟩ |
    ⟨i, e, op, rfl, -, hdb, hphases⟩ := hfollows.act_cases .ended ha
  · rw [CustomerPool.avatarPhases, hphases, hdb]
    refine h.skip fun f hf => ?_
    simp [CustomerPool.avatarPhases, Pool.phases, AvatarPhase.file] at hf
  · rw [CustomerPool.avatarPhases, hphases, hdb]
    exact h
  · rw [CustomerPool.avatarPhases, hphases, hdb]
    exact h.step rfl hG (avatarStep_exec hallowed s.now s.db)
  · rw [CustomerPool.avatarPhases, hphases, hdb]
    exact h.fail hG

/-- After a run of uploads, removals and deletions that is orderly and in which all calls have
finished, every file below `uploads/avatars` is the avatar of a live customer, where it was so at
the start. -/
theorem no_avatar_leaked {db : CustomerDb} {now : Int} {s : CustomerPool} (hlocal : isS3 E = false)
    (hnamed : ∀ f, InAvatars E f → db.files f ≠ none → db.Named E f)
    (run : Pool.Steps E.exec (CustomerPool.start E) (CustomerPool.Orderly E)
      (CustomerPool.idle db now) s) (hrest : s.AtRest) :
    ∀ f, InAvatars E f → s.db.files f ≠ none → s.db.Named E f := by
  obtain ⟨hfollows, hcovered⟩ := run.inv
    (I := fun s : CustomerPool => Pool.Follows (avatarMonitor E) AvatarPhase.closed
      AvatarPhase.initial s ∧ FilesOwned E {f | InAvatars E f} s.db (s.avatarPhases E))
    (fun s a s' ⟨hs, hI⟩ hG ha =>
      ⟨hs.act (fun c hc => avatarSafe_start hlocal (by subst hc; exact hG)) ha, hI.act hs hG ha⟩)
    ⟨Pool.follows_idle, fun f hf hexists => .inl (hnamed f hf hexists)⟩
  intro f hf hexists
  rcases hcovered f hf hexists with hnamed | ⟨i, hi⟩
  · exact hnamed
  · cases hp : s.procs[i]? with
    | none => simp [CustomerPool.avatarPhases, Pool.phases, hp, AvatarPhase.file] at hi
    | some p =>
      rw [CustomerPool.avatarPhases, Pool.phases_of_getElem? hp] at hi
      have hclosed := (hfollows.keeps i p hp).final (hrest p (List.mem_of_getElem? hp))
      rw [AvatarPhase.file_of_closed hclosed] at hi
      cases hi

namespace CustomerSample

/-- Two uploads for one customer that both read the row before either writes it. -/
def overlapping : List CustomerAct :=
  [.spawn (upload 1), .spawn (upload 2)] ++ (List.replicate 5 [.step 0, .step 1]).flatten

theorem avatarDb_named (f : Bytes) (hf : avatarDb.files f ≠ none) : avatarDb.Named env f := by
  by_cases heq : f = uploadFile env (draw 0) photo
  · rw [heq]
    decide +kernel
  · simp [avatarDb, CustomerDb.withFile, heq, withAvatar, db] at hf

end CustomerSample

open CustomerSample in
/-- One upload finishes, and the file that the customer had before is gone. -/
theorem no_avatar_leaked_sample :
    ∃ s : CustomerPool, s.db.files (uploadFile env (draw 1) photo) = some photo.contents
      ∧ s.db.files (uploadFile env (draw 0) photo) = none
      ∧ ∀ f, InAvatars env f → s.db.files f ≠ none → s.db.Named env f := by
  have h : ∃ s ∈ Pool.acts env.exec (CustomerPool.start env) (CustomerPool.Orderly env)
      (.spawn (upload 1) :: List.replicate 7 (.step 0)) (CustomerPool.idle avatarDb 0),
      CustomerPool.AtRest s ∧ s.db.files (uploadFile env (draw 1) photo) = some photo.contents
        ∧ s.db.files (uploadFile env (draw 0) photo) = none := by
    decide +kernel
  obtain ⟨s, hs, hrest, hnew, hold⟩ := h
  exact ⟨s, hnew, hold, no_avatar_leaked rfl (fun f _ => avatarDb_named f) (Pool.steps_of_acts hs)
    hrest⟩

open CustomerSample in
/-- Two uploads for a customer without an avatar both finish, and the first file is leaked. -/
theorem avatar_leaked :
    (∀ f, InAvatars env f → ((withAvatar none).files f ≠ none ↔ (withAvatar none).Named env f))
      ∧ ∃ s : CustomerPool, Pool.Steps env.exec (CustomerPool.start env) CustomerPool.OnlyAvatars
          (CustomerPool.idle (withAvatar none) 0) s
        ∧ s.AtRest ∧ ∃ f, InAvatars env f ∧ s.db.files f ≠ none ∧ ¬ s.db.Named env f := by
  have h : ∃ s ∈ Pool.acts env.exec (CustomerPool.start env) CustomerPool.OnlyAvatars
      overlapping (CustomerPool.idle (withAvatar none) 0),
      CustomerPool.AtRest s ∧ InAvatars env (uploadFile env (draw 1) photo)
        ∧ s.db.files (uploadFile env (draw 1) photo) ≠ none
        ∧ ¬ s.db.Named env (uploadFile env (draw 1) photo) := by
    decide +kernel
  obtain ⟨s, hs, hrest, hin, hexists, hnot⟩ := h
  refine ⟨fun f _ => ⟨fun hf => absurd rfl hf, ?_⟩, s, Pool.steps_of_acts hs, hrest, _, hin,
    hexists, hnot⟩
  rintro ⟨p, hp, -⟩
  exact absurd hp (by simp [CustomerDb.liveAvatars, withAvatar])

end SlimStarter
