import SlimStarter.Customer.Avatar

/-!
# Avatars are never dangling

In a run of uploads, removals and deletions, the avatar path of a live customer always names a file
(`avatars_exist`): a call removes a file only after its own write has taken the path out of the
table, and no path comes back, since every upload draws a new name.

`AvatarStep` says once what a statement of such a call can do. `Housed` is the invariant. It relates
the table, the files, and what each call in flight has remembered or is about to write; `K` are the
paths that have been in use so far.
-/

namespace SlimStarter

open UploadHelper (absolutePath isS3)

namespace CustomerDb

/-- A live customer `id` has this avatar. -/
def HasAvatar (db : CustomerDb) (id : ℕ) (path : Bytes) : Prop :=
  ∃ r ∈ db.customer.rows, r.deletedAt = none ∧ r.id = id ∧ r.avatarPath = some path

/-- The path names a file below the upload root. -/
def Stores (E : CustomerEnv) (db : CustomerDb) (path : Bytes) : Prop :=
  ∃ file, absolutePath E path = some file ∧ (db.files file).isSome = true

/-- The avatar paths of the live customers. -/
def liveAvatars (db : CustomerDb) : List Bytes :=
  (db.customer.rows.filter (·.deletedAt.isNone)).filterMap (·.avatarPath)

variable {db : CustomerDb} {id : ℕ}

theorem mem_liveAvatars {path : Bytes} : path ∈ db.liveAvatars ↔ ∃ id, db.HasAvatar id path := by
  simp only [liveAvatars, List.mem_filterMap, List.mem_filter, Option.isNone_iff_eq_none, HasAvatar]
  constructor
  · rintro ⟨r, ⟨hr, hlive⟩, hpath⟩
    exact ⟨r.id, r, hr, hlive, rfl, hpath⟩
  · rintro ⟨id, r, hr, hlive, -, hpath⟩
    exact ⟨r, ⟨hr, hlive⟩, hpath⟩

theorem hasAvatar_unique (h : db.liveAvatars.Nodup) {x y : ℕ} {path : Bytes}
    (hx : db.HasAvatar x path) (hy : db.HasAvatar y path) : x = y := by
  obtain ⟨r, hr, hlive, rfl, hpath⟩ := hx
  obtain ⟨r', hr', hlive', rfl, hpath'⟩ := hy
  have hpairs := List.pairwise_filterMap.mp h
  have hmem : ∀ {q : CustomerRow}, q ∈ db.customer.rows → q.deletedAt = none →
      q ∈ db.customer.rows.filter (·.deletedAt.isNone) := fun hq hlive =>
    List.mem_filter.mpr ⟨hq, by simp [hlive]⟩
  by_contra hne
  have hrr' : r ≠ r' := fun heq => hne (congrArg _ heq)
  have : Std.Symm fun a b : CustomerRow => ∀ p ∈ a.avatarPath, ∀ q ∈ b.avatarPath, p ≠ q :=
    ⟨fun _ _ hab p hp q hq => (hab q hq p hp).symm⟩
  exact hpairs.forall (hmem hr hlive) (hmem hr' hlive') hrr' path hpath path hpath' rfl

theorem hasAvatar_of_findById {id : ℕ} {row : CustomerRow} {path : Bytes}
    (hfound : CustomerModel.findById db.customer id = some row)
    (hpath : CustomerService.avatarPath row = some path) : db.HasAvatar id path := by
  obtain ⟨hmem, hrow⟩ := Table.first_mem hfound
  simp only [Bool.and_eq_true, decide_eq_true_eq, Option.isNone_iff_eq_none] at hrow
  obtain ⟨hpath, -⟩ := Option.filter_eq_some_iff.mp hpath
  exact ⟨row, hmem, hrow.2, hrow.1, hpath⟩

/-- A write of the row of another customer takes no avatar away. -/
theorem hasAvatar_update {f : CustomerRow → CustomerRow} {x : ℕ} {p : Bytes}
    (hx : db.HasAvatar x p) (hne : x ≠ id) :
    ({ db with customer := db.customer.update (·.id = id) f } : CustomerDb).HasAvatar x p := by
  obtain ⟨r, hr, hlive, hid, hpath⟩ := hx
  refine ⟨r, Table.mem_update.mpr (.inl ⟨hr, ?_⟩), hlive, hid, hpath⟩
  simpa [hid] using hne

theorem hasAvatar_set (now : LocalTime) (path : Bytes)
    (hlive : CustomerModel.exists db.customer id = true) :
    ({ db with customer := (CustomerModel.update now db.customer id (.avatarPath (some path))).2 }
      : CustomerDb).HasAvatar id path := by
  obtain ⟨r, hr, hrow⟩ := Table.first_isSome.mp hlive
  simp only [Bool.and_eq_true, decide_eq_true_eq, Option.isNone_iff_eq_none] at hrow
  exact ⟨_, Table.mem_update.mpr (.inr ⟨r, hr, by simpa using hrow.1, rfl⟩), hrow.2, hrow.1, rfl⟩

end CustomerDb

/-- What a write of the row of `id` makes of the avatars: `new` is the path it sets, if any. -/
def Rewrites (db db' : CustomerDb) (id : ℕ) (new : Option Bytes) : Prop :=
  ∀ x p, db'.HasAvatar x p → (x ≠ id ∧ db.HasAvatar x p) ∨ (x = id ∧ new = some p)

theorem rewrites_update {db : CustomerDb} (now : LocalTime) (id : ℕ) (new : Option Bytes) :
    Rewrites db
      { db with customer := (CustomerModel.update now db.customer id (.avatarPath new)).2 } id
      new := by
  rintro x p ⟨r, hr, hlive, rfl, hpath⟩
  rcases Table.mem_update.mp hr with ⟨hr, hne⟩ | ⟨r', hr', hid, rfl⟩
  · exact .inl ⟨by simpa using hne, r, hr, hlive, rfl, hpath⟩
  · exact .inr ⟨of_decide_eq_true hid, hpath⟩

theorem rewrites_deleteById {db : CustomerDb} (now : LocalTime) (id : ℕ) :
    Rewrites db { db with customer := (CustomerModel.deleteById now db.customer id).2 } id
      none := by
  rintro x p ⟨r, hr, hlive, rfl, hpath⟩
  rcases Table.mem_update.mp hr with ⟨hr, hne⟩ | ⟨r', hr', hid, rfl⟩
  · exact .inl ⟨by simpa using hne, r, hr, hlive, rfl, hpath⟩
  · cases hlive

/-- A harmless statement leaves the customers and the files as they are. -/
theorem exec_harmless {E : CustomerEnv} {op : CustomerStmt} (h : op.Harmless) (now : Int)
    (db : CustomerDb) :
    (E.exec op now db).2.customer = db.customer ∧ (E.exec op now db).2.files = db.files := by
  obtain ⟨hwrites, hfiles⟩ := h
  cases op <;>
    first | exact ⟨rfl, rfl⟩ | exact Bool.noConfusion hwrites | exact Bool.noConfusion hfiles

/-- What an allowed statement does to the customers, to the files and to the phase of its call. -/
inductive AvatarStep (E : CustomerEnv) (db : CustomerDb) :
    AvatarPhase → CustomerDb → AvatarPhase → Prop where
  | missing {id path} : AvatarStep E db (.reading id path) db .ended
  | read {id path row} (hfound : CustomerModel.findById db.customer id = some row) :
    AvatarStep E db (.reading id path) db (.holding id path (CustomerService.avatarPath row))
  | move {id path previous file contents} (hfile : absolutePath E path = some file) :
    AvatarStep E db (.holding id (some path) previous) (db.withFile file (some contents))
      (.stored id path previous)
  | clear {id previous} {db' : CustomerDb} (hfiles : db'.files = db.files)
    (hrewrites : Rewrites db db' id none)
    (hkept : ∀ x p, db.HasAvatar x p → x ≠ id → db'.HasAvatar x p) :
    AvatarStep E db (.holding id none previous) db' (.dropping (AvatarPhase.fileOf E previous))
  | set {id path previous} {db' : CustomerDb} (hfiles : db'.files = db.files)
    (hrewrites : Rewrites db db' id (some path))
    (hkept : ∀ x p, db.HasAvatar x p → x ≠ id → db'.HasAvatar x p)
    (hset : CustomerModel.exists db.customer id = true → db'.HasAvatar id path) :
    AvatarStep E db (.stored id path previous) db'
      (.dropping (AvatarPhase.fileOf E (previous.filter (· ≠ path))))
  | there {file} : AvatarStep E db (.dropping (some file)) db (.dropping (some file))
  | gone {file} (hgone : db.files file = none) :
    AvatarStep E db (.dropping (some file)) db (.dropping none)
  | unlink {file} :
    AvatarStep E db (.dropping (some file)) (db.withFile file none) (.dropping none)
  | harmless {db' : CustomerDb} (hcustomer : db'.customer = db.customer)
    (hfiles : db'.files = db.files) : AvatarStep E db (.dropping none) db' (.dropping none)

theorem avatarStep_exec {E : CustomerEnv} {φ : AvatarPhase} {op : CustomerStmt}
    (hop : φ.allowed E op) (now : Int) (db : CustomerDb) :
    AvatarStep E db φ (E.exec op now db).2 (φ.next E op (E.exec op now db).1) := by
  cases φ with
  | reading id path =>
    obtain rfl : op = _ := hop
    cases hfound : CustomerModel.findById db.customer id with
    | none =>
      simp only [CustomerEnv.exec, hfound]
      exact .missing
    | some row =>
      simp only [CustomerEnv.exec, hfound]
      exact .read hfound
  | holding id path previous =>
    cases path with
    | some path =>
      obtain ⟨file, contents, hfile, rfl⟩ := hop
      exact .move hfile
    | none =>
      rcases hop with rfl | rfl
      · exact .clear rfl (rewrites_update _ id none) fun _ _ => CustomerDb.hasAvatar_update
      · exact .clear rfl (rewrites_deleteById _ id) fun _ _ => CustomerDb.hasAvatar_update
  | stored id path previous =>
    obtain rfl : op = _ := hop
    exact .set rfl (rewrites_update _ id (some path)) (fun _ _ => CustomerDb.hasAvatar_update)
      (CustomerDb.hasAvatar_set _ path)
  | dropping file =>
    cases file with
    | some file =>
      rcases hop with rfl | rfl
      · cases hexists : (db.files file).isSome with
        | false =>
          simp only [CustomerEnv.exec, hexists]
          exact .gone (by simpa using hexists)
        | true =>
          simp only [CustomerEnv.exec, hexists]
          exact .there
      · exact .unlink
    | none =>
      obtain ⟨hcustomer, hfiles⟩ := exec_harmless (E := E) hop now db
      cases hreply : (E.exec op now db).1 <;> exact .harmless hcustomer hfiles
  | ended => exact hop.elim

/-! ## The invariant -/

namespace AvatarPhase

/-- The customer whose row the call has read. -/
def customer : AvatarPhase → Option ℕ
  | holding id .. => some id
  | stored id .. => some id
  | _ => none

/-- The path that an upload has not written yet. -/
def path : AvatarPhase → Option Bytes
  | reading _ path => path
  | holding _ path _ => path
  | stored _ path _ => some path
  | _ => none

/-- The path that the call has read and not dropped yet. -/
def previous : AvatarPhase → Option Bytes
  | holding _ _ previous => previous
  | stored _ _ previous => previous
  | _ => none

/-- A file that the call is about to remove. -/
def doomed : AvatarPhase → Option Bytes
  | dropping file => file
  | _ => none

end AvatarPhase

/-- What a phase says of the store: the path that an upload is going to write is new, what was read
is of this customer only, what was stored is there, and what will be removed is no one's. -/
structure AvatarPhase.Sound (E : CustomerEnv) (K : Set Bytes) (db : CustomerDb) (φ : AvatarPhase) :
    Prop where
  path : ∀ p, φ.path = some p → p ∈ K ∧ ∀ x, ¬ db.HasAvatar x p
  previous : ∀ q, φ.previous = some q → q ∈ K ∧ φ.path ≠ some q
    ∧ ∀ x, db.HasAvatar x q → φ.customer = some x
  stored : ∀ id p q, φ = .stored id p q → db.Stores E p
  doomed : ∀ f, φ.doomed = some f → (∃ q ∈ K, absolutePath E q = some f)
    ∧ ∀ x p, db.HasAvatar x p → absolutePath E p ≠ some f

/-- What one call is going to write is not in the hands of another. -/
def AvatarPhase.Apart (E : CustomerEnv) (φ ψ : AvatarPhase) : Prop :=
  ∀ p, φ.path = some p → ψ.path ≠ some p ∧ ψ.previous ≠ some p
    ∧ ∀ f, ψ.doomed = some f → absolutePath E p ≠ some f

structure Housed (E : CustomerEnv) (K : Set Bytes) (db : CustomerDb) (Φ : ℕ → AvatarPhase) :
    Prop where
  avatars : ∀ x p, db.HasAvatar x p → p ∈ K ∧ db.Stores E p
  owner : ∀ x y p, db.HasAvatar x p → db.HasAvatar y p → x = y
  sound : ∀ i, (Φ i).Sound E K db
  apart : ∀ i j, i ≠ j → (Φ i).Apart E (Φ j)

variable {E : CustomerEnv} {K K' : Set Bytes} {db db' : CustomerDb} {Φ : ℕ → AvatarPhase}
variable {φ : AvatarPhase} {i : ℕ}

namespace Housed

/-- A call goes on to a phase of its own, and the others keep theirs. -/
theorem update (havatars : ∀ x p, db'.HasAvatar x p → p ∈ K ∧ db'.Stores E p)
    (howner : ∀ x y p, db'.HasAvatar x p → db'.HasAvatar y p → x = y) (hnew : φ.Sound E K db')
    (hothers : ∀ j, j ≠ i → (Φ j).Sound E K db')
    (hapart : ∀ j, j ≠ i → φ.Apart E (Φ j) ∧ (Φ j).Apart E φ)
    (hold : ∀ j k, j ≠ k → (Φ j).Apart E (Φ k)) : Housed E K db' (Function.update Φ i φ) where
  avatars := havatars
  owner := howner
  sound := by
    intro j
    by_cases hj : j = i
    · rw [hj, Function.update_self]
      exact hnew
    · rw [Function.update_of_ne hj]
      exact hothers j hj
  apart := by
    intro j k hjk
    by_cases hj : j = i
    · subst hj
      rw [Function.update_self, Function.update_of_ne (Ne.symm hjk)]
      exact (hapart k (Ne.symm hjk)).1
    · rw [Function.update_of_ne hj]
      by_cases hk : k = i
      · rw [hk, Function.update_self]
        exact (hapart j hj).2
      · rw [Function.update_of_ne hk]
        exact hold j k hjk

end Housed

namespace AvatarPhase

variable {φ' ψ : AvatarPhase}

/-- A phase that has nothing in its hands but what the call had in the phase before. -/
structure Within (E : CustomerEnv) (φ' φ : AvatarPhase) : Prop where
  path : ∀ p, φ'.path = some p → φ.path = some p
  previous : ∀ q, φ'.previous = some q → φ.previous = some q
  doomed : ∀ f, φ'.doomed = some f →
    φ.doomed = some f ∨ ∃ q, φ.previous = some q ∧ absolutePath E q = some f

theorem Apart.left (h : φ.Apart E ψ) (w : φ'.Within E φ) : φ'.Apart E ψ :=
  fun p hp => h p (w.path p hp)

theorem Apart.right (h : ψ.Apart E φ) (w : φ'.Within E φ) : ψ.Apart E φ' := by
  intro p hp
  obtain ⟨hpath, hprevious, hdoomed⟩ := h p hp
  refine ⟨fun hp' => hpath (w.path p hp'), fun hp' => hprevious (w.previous p hp'),
    fun f hf habsolute => ?_⟩
  rcases w.doomed f hf with hf | ⟨q, hq, hqf⟩
  · exact hdoomed f hf habsolute
  · exact hprevious (absolutePath_injective habsolute hqf ▸ hq)

theorem Sound.mono (h : φ.Sound E K db) (hK : K ⊆ K') : φ.Sound E K' db := by
  refine ⟨fun p hp => ⟨hK (h.path p hp).1, (h.path p hp).2⟩,
    fun q hq => ⟨hK (h.previous q hq).1, (h.previous q hq).2⟩, h.stored, fun f hf => ?_⟩
  obtain ⟨⟨q, hq, hqf⟩, hf⟩ := h.doomed f hf
  exact ⟨⟨q, hK hq, hqf⟩, hf⟩

/-- What a phase says is kept where its stored file stays and no path in its hands is set. -/
theorem Sound.frame (h : φ.Sound E K db)
    (hstores : ∀ p, φ.path = some p → db.Stores E p → db'.Stores E p)
    (havatars : ∀ x p, db'.HasAvatar x p → db.HasAvatar x p ∨ (φ.path ≠ some p
      ∧ φ.previous ≠ some p ∧ ∀ f, φ.doomed = some f → absolutePath E p ≠ some f)) :
    φ.Sound E K db' where
  path := by
    refine fun p hp => ⟨(h.path p hp).1, fun x hx => ?_⟩
    rcases havatars x p hx with hx | ⟨hne, -⟩
    · exact (h.path p hp).2 x hx
    · exact hne hp
  previous := by
    refine fun q hq => ⟨(h.previous q hq).1, (h.previous q hq).2.1, fun x hx => ?_⟩
    rcases havatars x q hx with hx | ⟨-, hne, -⟩
    · exact (h.previous q hq).2.2 x hx
    · exact absurd hq hne
  stored := by
    rintro id p q rfl
    exact hstores p rfl (h.stored id p q rfl)
  doomed := by
    refine fun f hf => ⟨(h.doomed f hf).1, fun x p hx => ?_⟩
    rcases havatars x p hx with hx | ⟨-, -, hne⟩
    · exact (h.doomed f hf).2 x p hx
    · exact hne f hf

/-- A phase after the write has nothing in its hands but a file to remove. -/
theorem within_of_doomed (hpath : φ'.path = none) (hprevious : φ'.previous = none)
    (hdoomed : ∀ f, φ'.doomed = some f →
      φ.doomed = some f ∨ ∃ q, φ.previous = some q ∧ absolutePath E q = some f) :
    φ'.Within E φ :=
  ⟨by simp [hpath], by simp [hprevious], hdoomed⟩

theorem sound_of_doomed (hpath : φ.path = none) (hprevious : φ.previous = none)
    (hdoomed : ∀ f, φ.doomed = some f → (∃ q ∈ K, absolutePath E q = some f)
      ∧ ∀ x p, db.HasAvatar x p → absolutePath E p ≠ some f) : φ.Sound E K db := by
  refine ⟨by simp [hpath], by simp [hprevious], ?_, hdoomed⟩
  rintro id p q rfl
  cases hpath

end AvatarPhase

open AvatarPhase (fileOf within_of_doomed sound_of_doomed)

namespace Housed

variable {id : ℕ} {path previous : Option Bytes} {file : Bytes}

/-- A call that has nothing left in its hands. -/
theorem release (h : Housed E K db Φ) (hpath : φ.path = none) (hprevious : φ.previous = none)
    (hdoomed : φ.doomed = none) : Housed E K db (Function.update Φ i φ) := by
  have hwithin : φ.Within E (Φ i) := within_of_doomed hpath hprevious (by simp [hdoomed])
  exact update h.avatars h.owner (sound_of_doomed hpath hprevious (by simp [hdoomed]))
    (fun j _ => h.sound j)
    (fun j hj => ⟨(h.apart i j hj.symm).left hwithin, (h.apart j i hj).right hwithin⟩) h.apart

theorem read (h : Housed E K db Φ) (hφ : Φ i = .reading id path) {row : CustomerRow}
    (hfound : CustomerModel.findById db.customer id = some row) :
    Housed E K db
      (Function.update Φ i (.holding id path (CustomerService.avatarPath row))) := by
  have hi := h.sound i
  rw [hφ] at hi
  have hread : ∀ q, CustomerService.avatarPath row = some q → db.HasAvatar id q := fun q hq =>
    CustomerDb.hasAvatar_of_findById hfound hq
  refine update h.avatars h.owner ⟨hi.path, fun q hq => ?_, ?_, ?_⟩ (fun j _ => h.sound j)
    (fun j hj => ⟨?_, ?_⟩) h.apart
  · have hq' := hread q hq
    exact ⟨(h.avatars id q hq').1, fun hp => (hi.path q hp).2 id hq',
      fun x hx => congrArg some (h.owner id x q hq' hx)⟩
  · rintro id' p q ⟨⟩
  · rintro f ⟨⟩
  · have happart := h.apart i j hj.symm
    rw [hφ] at happart
    exact happart
  · intro p hp
    obtain ⟨hpath, -, -⟩ := h.apart j i hj p hp
    rw [hφ] at hpath
    refine ⟨hpath, fun hq => ((h.sound j).path p hp).2 id (hread p hq), ?_⟩
    rintro f ⟨⟩

theorem move (h : Housed E K db Φ) {p contents : Bytes} (hφ : Φ i = .holding id (some p) previous)
    (hfile : absolutePath E p = some file) :
    Housed E K (db.withFile file (some contents))
      (Function.update Φ i (.stored id p previous)) := by
  have hstores : ∀ q, db.Stores E q → (db.withFile file (some contents)).Stores E q := by
    rintro q ⟨f, hf, hexists⟩
    refine ⟨f, hf, ?_⟩
    by_cases heq : f = file
    · simp [CustomerDb.withFile, heq]
    · simpa [CustomerDb.withFile, heq] using hexists
  have hi := h.sound i
  rw [hφ] at hi
  have hwithin : (AvatarPhase.stored id p previous).Within E (Φ i) := by
    rw [hφ]
    exact ⟨fun _ hp => hp, fun _ hq => hq, fun _ hf => by cases hf⟩
  refine update (fun x q hx => ⟨(h.avatars x q hx).1, hstores q (h.avatars x q hx).2⟩) h.owner
    ⟨hi.path, hi.previous, ?_, fun f hf => by cases hf⟩
    (fun j _ => (h.sound j).frame (fun q _ => hstores q) fun x q hx => .inl hx)
    (fun j hj => ⟨(h.apart i j hj.symm).left hwithin, (h.apart j i hj).right hwithin⟩) h.apart
  rintro id' q q' ⟨⟩
  exact ⟨file, hfile, by simp [CustomerDb.withFile]⟩

/-- A call writes its row, and is about to remove the file it has read, unless it wrote the same. -/
theorem write (h : Housed E K db Φ) (path previous : Option Bytes)
    (hcustomer : (Φ i).customer = some id) (hpath : (Φ i).path = path)
    (hprevious : (Φ i).previous = previous) (hstored : ∀ p, path = some p → db.Stores E p)
    (hfiles : db'.files = db.files) (hrewrites : Rewrites db db' id path) :
    Housed E K db'
      (Function.update Φ i (.dropping (fileOf E (previous.filter (some · ≠ path))))) := by
  have hi := h.sound i
  have hstores : ∀ q, db.Stores E q → db'.Stores E q := by
    rintro q ⟨f, hf, hexists⟩
    exact ⟨f, hf, by rwa [hfiles]⟩
  have hdropped : ∀ f, fileOf E (previous.filter (some · ≠ path)) = some f →
      ∃ q, (Φ i).previous = some q ∧ some q ≠ path ∧ absolutePath E q = some f := by
    intro f hf
    obtain ⟨q, hq, hqf⟩ := Option.bind_eq_some_iff.mp hf
    obtain ⟨hq, hne⟩ := Option.filter_eq_some_iff.mp hq
    exact ⟨q, hprevious ▸ hq, by simpa using hne, hqf⟩
  have hwithin : (AvatarPhase.dropping (fileOf E (previous.filter (some · ≠ path)))).Within E
      (Φ i) := by
    refine within_of_doomed rfl rfl fun f hf => .inr ?_
    obtain ⟨q, hq, -, hqf⟩ := hdropped f hf
    exact ⟨q, hq, hqf⟩
  refine update (fun x p hx => ?_) (fun x y p hx hy => ?_) (sound_of_doomed rfl rfl fun f hf => ?_)
    (fun j hj => (h.sound j).frame (fun q _ => hstores q) fun x p hx => ?_)
    (fun j hj => ⟨(h.apart i j hj.symm).left hwithin, (h.apart j i hj).right hwithin⟩) h.apart
  · rcases hrewrites x p hx with ⟨-, hx⟩ | ⟨-, hp⟩
    · exact ⟨(h.avatars x p hx).1, hstores p (h.avatars x p hx).2⟩
    · exact ⟨(hi.path p (hpath.trans hp)).1, hstores p (hstored p hp)⟩
  · rcases hrewrites x p hx with ⟨hne, hx⟩ | ⟨rfl, hp⟩ <;>
      rcases hrewrites y p hy with ⟨hne', hy⟩ | ⟨rfl, hp'⟩
    · exact h.owner x y p hx hy
    · exact absurd hx ((hi.path p (hpath.trans hp')).2 x)
    · exact absurd hy ((hi.path p (hpath.trans hp)).2 y)
    · rfl
  · obtain ⟨q, hq, hne, hqf⟩ := hdropped f hf
    refine ⟨⟨q, (hi.previous q hq).1, hqf⟩, fun x p hx hpf => ?_⟩
    obtain rfl := absolutePath_injective hpf hqf
    rcases hrewrites x p hx with ⟨hx', hx⟩ | ⟨-, hp⟩
    · have hx'' := (hi.previous p hq).2.2 x hx
      rw [hcustomer] at hx''
      exact hx' (Option.some.inj hx'').symm
    · exact hne hp.symm
  · rcases hrewrites x p hx with ⟨-, hx⟩ | ⟨-, hp⟩
    · exact .inl hx
    · refine .inr ?_
      obtain ⟨h₁, h₂, h₃⟩ := h.apart i j hj.symm p (hpath.trans hp)
      exact ⟨h₁, h₂, h₃⟩

theorem unlink (h : Housed E K db Φ) (hφ : Φ i = .dropping (some file)) :
    Housed E K (db.withFile file none) (Function.update Φ i (.dropping none)) := by
  have hstores : ∀ q, absolutePath E q ≠ some file → db.Stores E q →
      (db.withFile file none).Stores E q := by
    rintro q hne ⟨f, hf, hexists⟩
    have hfile : f ≠ file := fun heq => hne (heq ▸ hf)
    exact ⟨f, hf, by simpa [CustomerDb.withFile, hfile] using hexists⟩
  have hdoomed : (Φ i).doomed = some file := by rw [hφ]; rfl
  have hnone : ∀ f, (AvatarPhase.dropping none).doomed ≠ some f := fun f hf => by cases hf
  have hwithin : (AvatarPhase.dropping none).Within E (Φ i) :=
    within_of_doomed rfl rfl fun f hf => absurd hf (hnone f)
  exact update (fun x q hx => ⟨(h.avatars x q hx).1,
      hstores q (((h.sound i).doomed file hdoomed).2 x q hx) (h.avatars x q hx).2⟩) h.owner
    (sound_of_doomed rfl rfl fun f hf => absurd hf (hnone f))
    (fun j hj => (h.sound j).frame (fun q hq => hstores q ((h.apart j i hj q hq).2.2 file hdoomed))
      fun x q hx => .inl hx)
    (fun j hj => ⟨(h.apart i j hj.symm).left hwithin, (h.apart j i hj).right hwithin⟩) h.apart

/-- A call starts. What it is going to write was never in use. -/
theorem spawn (h : Housed E K db Φ) (hK : K ⊆ K') (hprevious : φ.previous = none)
    (hdoomed : φ.doomed = none) (hstored : ∀ id p q, φ ≠ .stored id p q)
    (hpath : ∀ p, φ.path = some p → p ∈ K' ∧ p ∉ K) :
    Housed E K' db (Function.update Φ i φ) := by
  refine update (fun x p hx => ⟨hK (h.avatars x p hx).1, (h.avatars x p hx).2⟩) h.owner
    ⟨fun p hp => ⟨(hpath p hp).1, fun x hx => (hpath p hp).2 (h.avatars x p hx).1⟩,
      by simp [hprevious], fun id p q hs => absurd hs (hstored id p q), by simp [hdoomed]⟩
    (fun j _ => (h.sound j).mono hK) (fun j _ => ⟨fun p hp => ?_, fun p hp => ?_⟩) h.apart
  · have hj := h.sound j
    refine ⟨fun hp' => (hpath p hp).2 (hj.path p hp').1,
      fun hp' => (hpath p hp).2 (hj.previous p hp').1, fun f hf hpf => ?_⟩
    obtain ⟨⟨q, hq, hqf⟩, -⟩ := hj.doomed f hf
    exact (hpath p hp).2 (absolutePath_injective hpf hqf ▸ hq)
  · have hj := (h.sound j).path p hp
    exact ⟨fun hp' => (hpath p hp').2 hj.1, by simp [hprevious], by simp [hdoomed]⟩

theorem mono (h : Housed E K db Φ) (hK : K ⊆ K') : Housed E K' db Φ :=
  ⟨fun x p hx => ⟨hK (h.avatars x p hx).1, (h.avatars x p hx).2⟩, h.owner,
    fun j => (h.sound j).mono hK, h.apart⟩

theorem congr (h : Housed E K db Φ) (hcustomer : db'.customer = db.customer)
    (hfiles : db'.files = db.files) : Housed E K db' Φ := by
  have havatar : ∀ {x p}, db'.HasAvatar x p → db.HasAvatar x p := by
    rintro x p ⟨r, hr, hrow⟩
    exact ⟨r, hcustomer ▸ hr, hrow⟩
  have hstores : ∀ {p}, db.Stores E p → db'.Stores E p := by
    rintro p ⟨f, hf, hexists⟩
    exact ⟨f, hf, by rwa [hfiles]⟩
  exact ⟨fun x p hx => ⟨(h.avatars x p (havatar hx)).1, hstores (h.avatars x p (havatar hx)).2⟩,
    fun x y p hx hy => h.owner x y p (havatar hx) (havatar hy),
    fun j => (h.sound j).frame (fun p _ => hstores) fun x p hx => .inl (havatar hx), h.apart⟩

end Housed

/-- A write of no path leaves all that was read to remove. -/
theorem filter_ne_none (previous : Option Bytes) :
    previous.filter (some · ≠ none) = previous := by
  cases previous <;> rfl

theorem filter_ne_some (previous : Option Bytes) (path : Bytes) :
    previous.filter (some · ≠ some path) = previous.filter (· ≠ path) := by
  simp only [ne_eq, Option.some.injEq]

theorem Housed.step (h : Housed E K db Φ) (hφ : Φ i = φ) {φ' : AvatarPhase}
    (hstep : AvatarStep E db φ db' φ') : Housed E K db' (Function.update Φ i φ') := by
  cases hstep with
  | missing => exact h.release rfl rfl rfl
  | read hfound => exact h.read hφ hfound
  | move hfile => exact h.move hφ hfile
  | @clear id previous _ hfiles hrewrites _ =>
    have hdropped := h.write (i := i) none previous (by rw [hφ]; rfl) (by rw [hφ]; rfl)
      (by rw [hφ]; rfl) (by simp) hfiles hrewrites
    rwa [filter_ne_none] at hdropped
  | @set id path previous _ hfiles hrewrites _ _ =>
    have hstores : db.Stores E path := (h.sound i).stored id path previous hφ
    have hdropped := h.write (i := i) (some path) previous (by rw [hφ]; rfl) (by rw [hφ]; rfl)
      (by rw [hφ]; rfl) (fun p hp => Option.some.inj hp ▸ hstores) hfiles hrewrites
    rwa [filter_ne_some] at hdropped
  | there =>
    rw [← hφ, Function.update_eq_self]
    exact h
  | gone => exact h.release rfl rfl rfl
  | unlink => exact h.unlink hφ
  | harmless hcustomer hfiles => exact (h.congr hcustomer hfiles).release rfl rfl rfl

/-- A statement that fails leaves the call with nothing in its hands. -/
theorem Housed.fail (h : Housed E K db Φ) (op : CustomerStmt) (e : Failure) :
    Housed E K db (Function.update Φ i ((Φ i).next E op (.error e))) := by
  have hnext : (Φ i).next E op (.error e) = .ended
      ∨ (Φ i).next E op (.error e) = .dropping none := by
    cases Φ i with
    | dropping file => cases file <;> simp [AvatarPhase.next]
    | holding id path previous => cases path <;> simp [AvatarPhase.next]
    | _ => simp [AvatarPhase.next]
  rcases hnext with hnext | hnext <;> rw [hnext] <;> exact h.release rfl rfl rfl

/-! ## Runs -/

/-- Calls that change avatars, each with a name that no call before it and no avatar of the start
has. -/
def CustomerPool.AvatarCalls (db₀ : CustomerDb) (s : CustomerPool) : CustomerAct → Prop
  | .spawn c => ChangesAvatar c ∧ (∀ p ∈ s.procs, p.call.2.fileName ≠ c.2.fileName)
      ∧ ∀ r ∈ db₀.customer.rows, ∀ file, r.avatarPath ≠ some (uploadPath c.2 file)
  | _ => True

/-- The paths of the avatars of the start and of the uploads called so far. -/
def CustomerPool.usedPaths (db₀ : CustomerDb) (s : CustomerPool) : Set Bytes :=
  {p | (∃ r ∈ db₀.customer.rows, r.avatarPath = some p)
    ∨ ∃ q ∈ s.procs, (AvatarPhase.initial q.call).path = some p}

/-- The phases of the calls. -/
abbrev CustomerPool.avatarPhases (E : CustomerEnv) (s : CustomerPool) : ℕ → AvatarPhase :=
  Pool.phases (avatarMonitor E) AvatarPhase.initial .ended s

/-- The calls of a run keep their phases, and the invariant holds. -/
structure CustomerPool.Keeping (E : CustomerEnv) (db₀ : CustomerDb) (s : CustomerPool) : Prop where
  follows : Pool.Follows (avatarMonitor E) AvatarPhase.closed AvatarPhase.initial s
  names : ∀ q ∈ s.procs, ChangesAvatar q.call
  housed : Housed E (s.usedPaths db₀) s.db (s.avatarPhases E)

theorem initial_path {c : CustomerCall × CustomerEntropy} {p : Bytes}
    (h : (AvatarPhase.initial c).path = some p) : ∃ file, p = uploadPath c.2 file := by
  obtain ⟨call, R⟩ := c
  cases call with
  | uploadAvatar id file => exact ⟨file, (Option.some.inj h).symm⟩
  | _ => cases h

theorem initial_new (c : CustomerCall × CustomerEntropy) :
    (AvatarPhase.initial c).previous = none ∧ (AvatarPhase.initial c).doomed = none
      ∧ ∀ id p q, AvatarPhase.initial c ≠ .stored id p q := by
  obtain ⟨call, R⟩ := c
  cases call <;> exact ⟨rfl, rfl, fun _ _ _ h => by cases h⟩

variable {s s' : CustomerPool} {a : CustomerAct} {db₀ : CustomerDb}

/-- No one uses the path of a new name. -/
theorem CustomerPool.Keeping.fresh (h : s.Keeping E db₀) {c : CustomerCall × CustomerEntropy}
    (hc : CustomerPool.AvatarCalls db₀ s (.spawn c)) {p : Bytes}
    (hp : (AvatarPhase.initial c).path = some p) : p ∉ s.usedPaths db₀ := by
  obtain ⟨hchanges, hnames, hrows⟩ := hc
  obtain ⟨file, rfl⟩ := initial_path hp
  rintro (⟨r, hr, hpath⟩ | ⟨q, hq, hpath⟩)
  · exact hrows r hr file hpath
  · obtain ⟨file', heq⟩ := initial_path hpath
    exact hnames q hq (fileName_of_uploadPath (h.names q hq).1 hchanges.1 heq.symm)

theorem CustomerPool.Keeping.act (hlocal : isS3 E = false) (h : s.Keeping E db₀)
    (hG : CustomerPool.AvatarCalls db₀ s a)
    (ha : Pool.act E.exec (CustomerPool.start E) s a = some s') : s'.Keeping E db₀ := by
  have hfollows := h.follows.act (fun c hc => avatarSafe_start hlocal (hc ▸ hG : _ ∧ _).1) ha
  have hnames : ∀ q ∈ s'.procs, ChangesAvatar q.call := by
    intro q hq
    rcases Pool.act_calls ha hq with rfl | ⟨q₀, hq₀, heq⟩
    · exact hG.1
    · exact heq ▸ h.names q₀ hq₀
  have hused : s.usedPaths db₀ ⊆ s'.usedPaths db₀ := by
    rintro p (hp | ⟨q, hq, hp⟩)
    · exact .inl hp
    · obtain ⟨i, hi⟩ := List.getElem?_of_mem hq
      obtain ⟨q', hq', heq⟩ := Pool.act_procs ha hi
      exact .inr ⟨q', List.mem_of_getElem? hq', heq ▸ hp⟩
  refine ⟨hfollows, hnames, ?_⟩
  obtain ⟨c, rfl, hdb, hphases⟩ | ⟨t, rfl, hdb, hphases⟩ | ⟨i, op, rfl, hallowed, hdb, hphases⟩ |
    ⟨i, e, op, rfl, hallowed, hdb, hphases⟩ := h.follows.act_cases .ended ha
  · rw [CustomerPool.avatarPhases, hphases, hdb]
    obtain ⟨hprevious, hdoomed, hstored⟩ := initial_new c
    refine h.housed.spawn hused hprevious hdoomed hstored fun p hp => ⟨.inr ?_, h.fresh hG hp⟩
    obtain rfl := Option.some.inj ha
    exact ⟨_, List.mem_append_right _ (List.mem_singleton_self _), hp⟩
  · rw [CustomerPool.avatarPhases, hphases, hdb]
    exact h.housed.mono hused
  · rw [CustomerPool.avatarPhases, hphases, hdb]
    exact (h.housed.step rfl (avatarStep_exec hallowed s.now s.db)).mono hused
  · rw [CustomerPool.avatarPhases, hphases, hdb]
    exact (h.housed.fail op e).mono hused

/-- In every state of every run of uploads, removals and deletions that draw new names, from live
customers with different avatars that are there, the avatar path of a live customer names a file
below the upload root. -/
theorem avatars_exist {db : CustomerDb} {now : Int} {s : CustomerPool} (hlocal : isS3 E = false)
    (hdistinct : db.liveAvatars.Nodup) (hexist : ∀ p ∈ db.liveAvatars, db.Stores E p)
    (run : Pool.Steps E.exec (CustomerPool.start E) (CustomerPool.AvatarCalls db)
      (CustomerPool.idle db now) s) : ∀ p ∈ s.db.liveAvatars, s.db.Stores E p := by
  have hidle : (CustomerPool.idle db now).Keeping E db := by
    refine ⟨Pool.follows_idle, by simp [CustomerPool.idle], fun x p hx => ⟨.inl ?_, ?_⟩,
      fun x y p hx hy => ?_, fun i => ?_, fun i j _ p hp => by cases hp⟩
    · obtain ⟨r, hr, -, -, hpath⟩ := hx
      exact ⟨r, hr, hpath⟩
    · exact hexist p (CustomerDb.mem_liveAvatars.mpr ⟨x, hx⟩)
    · exact CustomerDb.hasAvatar_unique hdistinct hx hy
    · exact sound_of_doomed rfl rfl fun f hf => by cases hf
  have hkeeping := run.inv (fun _ _ _ hs hG ha => hs.act hlocal hG ha) hidle
  intro p hp
  obtain ⟨x, hx⟩ := CustomerDb.mem_liveAvatars.mp hp
  exact (hkeeping.housed.avatars x p hx).2

open CustomerSample in
/-- The customer gets a new avatar in the place of the old one. -/
theorem avatars_exist_sample :
    ∃ s : CustomerPool, s.db.liveAvatars = [uploadPath (draw 1) photo]
      ∧ s.db.files (uploadFile env (draw 0) photo) = none
      ∧ ∀ p ∈ s.db.liveAvatars, s.db.Stores env p := by
  have hspawn : CustomerPool.AvatarCalls avatarDb (CustomerPool.idle avatarDb 0)
      (.spawn (upload 1)) := by
    refine ⟨by decide +kernel, by simp [CustomerPool.idle], fun r hr file hpath => ?_⟩
    obtain rfl := List.mem_singleton.mp hr
    have hname : (draw 0).fileName = (draw 1).fileName :=
      fileName_of_uploadPath (by decide +kernel) (by decide +kernel) (Option.some.inj hpath)
    exact absurd hname (by decide +kernel)
  have hsteps : ∃ s₁ ∈ Pool.act env.exec (CustomerPool.start env) (CustomerPool.idle avatarDb 0)
      (.spawn (upload 1)), ∃ s ∈ Pool.acts env.exec (CustomerPool.start env)
        (fun _ a => isStep a = true) (List.replicate 5 (.step 0)) s₁,
      s.db.liveAvatars = [uploadPath (draw 1) photo]
        ∧ s.db.files (uploadFile env (draw 0) photo) = none := by
    decide +kernel
  obtain ⟨s₁, hs₁, s, hs, havatars, hgone⟩ := hsteps
  have hrest : Pool.Steps env.exec (CustomerPool.start env) (CustomerPool.AvatarCalls avatarDb)
      s₁ s := by
    refine (Pool.steps_of_acts hs).mono fun _ a ha => ?_
    cases a with
    | spawn c => cases ha
    | _ => trivial
  have hexist : ∀ p ∈ avatarDb.liveAvatars, avatarDb.Stores env p := by
    intro p hp
    have hlive : avatarDb.liveAvatars = [uploadPath (draw 0) photo] := by decide +kernel
    rw [hlive] at hp
    obtain rfl := List.mem_singleton.mp hp
    exact ⟨_, absolutePath_uploadPath (by decide +kernel) photo, by decide +kernel⟩
  exact ⟨s, havatars, hgone, avatars_exist rfl (by decide +kernel) hexist
    (.head ⟨_, hspawn, hs₁⟩ hrest)⟩

end SlimStarter
