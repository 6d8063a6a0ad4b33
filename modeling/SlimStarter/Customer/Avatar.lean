import SlimStarter.Customer.Phases

/-!
# Calls that change an avatar

`uploadAvatar`, `removeAvatar` and `delete` read the row of a customer, remember its avatar path,
write the row, and then remove the file of the path they remember; an upload stores its file before
the write. `avatarMonitor` names these phases on the filesystem target, and `avatarSafe_start` says
that the three calls keep them.

A stored file has a random name in hexadecimal, so that its path leads back to where it was stored
(`absolutePath_uploadPath`).
-/

namespace SlimStarter

open UploadHelper (absolutePath relativePath isS3)

variable {E : CustomerEnv}

/-- `bin2hex(random_bytes(8))` can be this name. -/
def RandomName (name : Bytes) : Prop :=
  name.length = 16 ∧ ∀ b ∈ name, isDigit b = true ∨ (97 ≤ b ∧ b ≤ 102)

instance (name : Bytes) : Decidable (RandomName name) := inferInstanceAs (Decidable (_ ∧ _))

/-- The path that `moveUploadedFile` returns for an avatar. -/
def uploadPath (R : CustomerEntropy) (file : UploadedFile) : Bytes :=
  ascii "uploads/" ++ relativePath R file (ascii "avatars")

/-- Where the file of an avatar is stored. -/
def uploadFile (E : CustomerEnv) (R : CustomerEntropy) (file : UploadedFile) : Bytes :=
  E.uploadDirectory ++ 47 :: relativePath R file (ascii "avatars")

theorem RandomName.dot_notMem {name : Bytes} (h : RandomName name) : 46 ∉ name := by
  intro hdot
  rcases h.2 46 hdot with hdigit | hletter
  · exact absurd hdigit (by decide)
  · exact absurd hletter (by decide)

theorem dot_notMem_extension (path : Bytes) : 46 ∉ strtolower (pathinfoExtension path) := by
  have hlower : ∀ b : UInt8, (if 65 ≤ b ∧ b ≤ 90 then b + 32 else b) = 46 → b = 46 :=
    forall_byte (by decide +kernel)
  intro hdot
  obtain ⟨b, hb, heq⟩ := List.mem_map.mp hdot
  obtain rfl := hlower b heq
  unfold pathinfoExtension at hb
  split_ifs at hb
  · have hall := List.mem_rtakeWhile_imp hb
    simp at hall
  · simp at hb

/-- What follows the folder of a stored avatar: its name, and its extension if it has one. -/
theorem relativePath_eq (R : CustomerEntropy) (file : UploadedFile) :
    ∃ extension, 46 ∉ extension ∧ relativePath R file (ascii "avatars") =
      ascii "avatars/" ++ (R.fileName ++ if extension = [] then [] else 46 :: extension) := by
  refine ⟨strtolower (pathinfoExtension file.clientFilename), dot_notMem_extension _, ?_⟩
  have hfolder : UploadHelper.trimSlashes (ascii "avatars") = ascii "avatars" := by decide
  simp only [relativePath, hfolder]
  rfl

/-- Two dots in a row are within one of two texts, unless these meet in two dots. -/
theorem dots_append {a b : Bytes} (ha : ¬ [46, 46] <:+: a) (hb : ¬ [46, 46] <:+: b)
    (hmeet : a.getLast? ≠ some 46 ∨ b.head? ≠ some 46) : ¬ [46, 46] <:+: a ++ b := by
  intro h
  obtain h | h | ⟨s, t, hs, ht, heq, hsuffix, hprefix⟩ := List.infix_append_iff_ne_nil.mp h
  · exact ha h
  · exact hb h
  · obtain ⟨c, s, rfl⟩ := List.exists_cons_of_ne_nil hs
    obtain ⟨d, t, rfl⟩ := List.exists_cons_of_ne_nil ht
    obtain ⟨rfl, rfl, rfl⟩ : c = 46 ∧ s = [] ∧ d = 46 := by
      cases s with
      | nil =>
        simp only [List.cons_append, List.nil_append, List.cons.injEq] at heq
        exact ⟨heq.1.symm, rfl, heq.2.1.symm⟩
      | cons => simp at heq
    obtain ⟨u, rfl⟩ := hsuffix
    obtain ⟨v, rfl⟩ := hprefix
    simp at hmeet

/-- The relative path of a stored file has two dots in a row only where its folder has. -/
theorem no_dots_relativePath {R : CustomerEntropy} {folder : Bytes} (hname : RandomName R.fileName)
    (hfolder : ¬ [46, 46] <:+: folder) (file : UploadedFile) :
    ¬ [46, 46] <:+: relativePath R file folder := by
  have htrim : ¬ [46, 46] <:+: UploadHelper.trimSlashes folder := fun h => hfolder
    ((h.trans (List.rdropWhile_prefix _ _).isInfix).trans (List.dropWhile_suffix _).isInfix)
  have hextension := dot_notMem_extension file.clientFilename
  unfold relativePath
  refine dots_append ?_ ?_ (.inl ?_)
  · split_ifs
    · decide
    · exact dots_append htrim (by decide) (.inr (by decide))
  · intro h
    have hcount := h.sublist.count_le 46
    have hrandom : List.count 46 R.fileName = 0 := List.count_eq_zero.mpr hname.dot_notMem
    have hnone := List.count_eq_zero.mpr hextension
    rw [List.count_append, hrandom] at hcount
    split_ifs at hcount <;> simp [hnone] at hcount
  · split_ifs <;> simp

theorem relativePath_ne_nil {R : CustomerEntropy} (hname : RandomName R.fileName)
    (file : UploadedFile) (folder : Bytes) : relativePath R file folder ≠ [] := by
  have hne : R.fileName ≠ [] := List.ne_nil_of_length_pos (by rw [hname.1]; decide)
  simp [relativePath, hne]

/-- The path of a stored file leads back to where it was stored. -/
theorem absolutePath_relativePath {R : CustomerEntropy} {folder : Bytes}
    (hname : RandomName R.fileName) (hfolder : ¬ [46, 46] <:+: folder) (file : UploadedFile) :
    absolutePath E (ascii "uploads/" ++ relativePath R file folder) =
      some (E.uploadDirectory ++ 47 :: relativePath R file folder) := by
  have hdots := no_dots_relativePath hname hfolder file
  have hne := relativePath_ne_nil hname file folder
  simp only [absolutePath, List.isPrefixOf_iff_prefix, List.prefix_append, if_true,
    List.drop_left, hne, hdots, or_self, if_false]

theorem absolutePath_uploadPath {R : CustomerEntropy} (h : RandomName R.fileName)
    (file : UploadedFile) : absolutePath E (uploadPath R file) = some (uploadFile E R file) :=
  absolutePath_relativePath h (by decide) file

theorem fileName_of_uploadPath {R R' : CustomerEntropy} {file file' : UploadedFile}
    (h : RandomName R.fileName) (h' : RandomName R'.fileName)
    (heq : uploadPath R file = uploadPath R' file') : R.fileName = R'.fileName := by
  obtain ⟨x, hx, hpath⟩ := relativePath_eq R file
  obtain ⟨y, hy, hpath'⟩ := relativePath_eq R' file'
  have hread : ∀ {name z : Bytes}, 46 ∉ name →
      (name ++ if z = [] then [] else 46 :: z).takeWhile (· ≠ 46) = name := by
    intro name z hname
    rw [List.takeWhile_append_of_pos fun b hb => by simpa using ne_of_mem_of_not_mem hb hname]
    split_ifs <;> simp
  unfold uploadPath at heq
  rw [hpath, hpath', List.append_cancel_left_eq, List.append_cancel_left_eq] at heq
  rw [← hread h.dot_notMem (z := x), heq, hread h'.dot_notMem]

theorem absolutePath_injective {p q file : Bytes} (hp : absolutePath E p = some file)
    (hq : absolutePath E q = some file) : p = q := by
  have hcut : ∀ {p}, absolutePath E p = some file → ∃ relative, p = ascii "uploads/" ++ relative
      ∧ E.uploadDirectory ++ 47 :: relative = file := by
    intro p hp
    simp only [absolutePath] at hp
    split_ifs at hp with hprefix
    obtain ⟨relative, rfl⟩ := List.isPrefixOf_iff_prefix.mp hprefix
    rw [List.drop_left] at hp
    exact ⟨relative, rfl, Option.some.inj hp⟩
  obtain ⟨x, rfl, hx⟩ := hcut hp
  obtain ⟨y, rfl, hy⟩ := hcut hq
  rw [← hy, List.append_cancel_left_eq] at hx
  rw [(List.cons_eq_cons.mp hx).2]

/-! ## Phases -/

/-- How far a call on the customer `id` has come. `path` is what an upload is going to write and
`previous` what the call has read; a call that is `dropping` has written the row and has a file left
to remove, where there is one. -/
inductive AvatarPhase where
  | reading (id : ℕ) (path : Option Bytes)
  | holding (id : ℕ) (path previous : Option Bytes)
  | stored (id : ℕ) (path : Bytes) (previous : Option Bytes)
  | dropping (file : Option Bytes)
  | ended
deriving DecidableEq, Repr

namespace CustomerStmt

/-- The statement changes a file. -/
def changesFiles : CustomerStmt → Bool
  | moveTo .. | unlink _ => true
  | _ => false

/-- The statement changes neither the customers nor a file. -/
def Harmless (op : CustomerStmt) : Prop := op.writes = false ∧ op.changesFiles = false

end CustomerStmt

namespace AvatarPhase

variable (E)

/-- The file of a remembered path. -/
def fileOf (path : Option Bytes) : Option Bytes := path.bind (absolutePath E)

def next : AvatarPhase → (op : CustomerStmt) → Except Failure op.Res → AvatarPhase
  | reading id path, .findById _, .ok (some row) => holding id path (CustomerService.avatarPath row)
  | holding id (some path) previous, _, .ok _ => stored id path previous
  | holding _ none previous, _, .ok _ => dropping (fileOf E previous)
  | stored _ path previous, _, .ok _ => dropping (fileOf E (previous.filter (· ≠ path)))
  | dropping (some file), .isFile _, .ok true => dropping (some file)
  | dropping _, _, .ok _ => dropping none
  | dropping none, _, .error _ => dropping none
  | _, _, _ => ended

def allowed : AvatarPhase → CustomerStmt → Prop
  | reading id _, op => op = .findById id
  | holding _ (some path) _, op =>
    ∃ file contents, absolutePath E path = some file ∧ op = .moveTo file contents
  | holding id none _, op => op = .update id (.avatarPath none) ∨ op = .deleteById id
  | stored id path _, op => op = .update id (.avatarPath (some path))
  | dropping (some file), op => op = .isFile file ∨ op = .unlink file
  | dropping none, op => op.Harmless
  | ended, _ => False

/-- No file is left to be taken care of. -/
def closed : AvatarPhase → Prop
  | stored .. => False
  | dropping (some _) => False
  | _ => True

end AvatarPhase

variable (E) in
def avatarMonitor : Monitor CustomerStmt CustomerStmt.Res Failure AvatarPhase where
  next := AvatarPhase.next E
  allowed := AvatarPhase.allowed E

/-- The call ends with no file left to remove, or died of a failure. -/
abbrev AvatarSafe {α : Type} (E : CustomerEnv) (φ : AvatarPhase) (p : CustomerProg α) : Prop :=
  (avatarMonitor E).Safe AvatarPhase.closed φ p

section Safe

variable {α : Type} {R : CustomerEntropy}

theorem avatarSafe_harmless {A : α → Prop} {p : CustomerProg α}
    (h : Prog.Only CustomerStmt.Harmless A p) : AvatarSafe E (.dropping none) p := by
  have hnext : ∀ op r, op.Harmless →
      (avatarMonitor E).next (.dropping none) op r = .dropping none := by
    intro op r _
    cases r <;> rfl
  exact (Monitor.Keeps.of_only hnext (fun _ hop => hop) h).mono
    (fun _ _ hφ => hφ.1 ▸ trivial) fun _ _ hφ => hφ ▸ trivial

/-- What a call does after its write: remove the file, and then nothing that matters here. -/
theorem avatarSafe_drop (hlocal : isS3 E = false) (path : Option Bytes) {rest : CustomerProg α}
    (hrest : Prog.Only CustomerStmt.Harmless (fun _ => True) rest) :
    AvatarSafe E (.dropping (AvatarPhase.fileOf E path))
      (CustomerService.dropAvatar E path >>= fun _ => rest) := by
  have hend := avatarSafe_harmless (E := E) hrest
  unfold CustomerService.dropAvatar UploadHelper.deleteUploadedFile AvatarPhase.fileOf
  cases path with
  | none => exact hend
  | some path =>
    simp only [hlocal, Bool.false_eq_true, if_false, Option.bind_some]
    cases absolutePath E path with
    | none => exact hend
    | some file =>
      refine Monitor.keeps_bind.mpr (Monitor.keeps_bind.mpr (Monitor.keeps_bind.mpr
        (Monitor.keeps_stmt.mpr ⟨.inl rfl, fun _ => trivial, fun isFile => ?_⟩)))
      cases isFile with
      | false => exact hend
      | true => exact Monitor.keeps_stmt.mpr ⟨.inr rfl, fun _ => trivial, fun _ => hend⟩

theorem harmless_bump :
    Prog.Only CustomerStmt.Harmless (fun _ => True) (CustomerService.bump E) := by
  rw [bump_eq]
  split_ifs
  · exact ⟨⟨rfl, rfl⟩, fun _ => trivial⟩
  · trivial

theorem harmless_get (id : ℕ) :
    Prog.Only CustomerStmt.Harmless (fun _ => True) (CustomerService.get E id) := by
  refine Prog.only_bind.mpr (Prog.only_stmt.mpr ⟨⟨rfl, rfl⟩, fun customer => ?_⟩)
  cases customer <;> trivial

theorem harmless_bump_get (id : ℕ) : Prog.Only CustomerStmt.Harmless (fun _ => True)
    (CustomerService.bump E >>= fun _ => CustomerService.get E id) :=
  Prog.only_bind.mpr (harmless_bump.mono fun _ _ => harmless_get id)

/-- Each call reads its row first, and ends where there is none. -/
theorem avatarSafe_find {id : ℕ} {path : Option Bytes} {f : CustomerRow → CustomerProg α}
    {e : Failure}
    (h : ∀ row, AvatarSafe E (.holding id path (CustomerService.avatarPath row)) (f row)) :
    AvatarSafe E (.reading id path) (do
      let customer ← issue (.findById id)
      match customer with
      | none => .throw e
      | some customer => f customer) := by
  refine Monitor.keeps_bind.mpr (Monitor.keeps_stmt.mpr ⟨rfl, fun _ => trivial, fun customer => ?_⟩)
  cases customer with
  | none => trivial
  | some row => exact h row

theorem avatarSafe_delete (hlocal : isS3 E = false) (id : ℕ) :
    AvatarSafe E (.reading id none) (CustomerService.delete E id) :=
  avatarSafe_find fun _ => Monitor.keeps_bind.mpr (Monitor.keeps_stmt.mpr
    ⟨.inr rfl, fun _ => trivial, fun _ => avatarSafe_drop hlocal _ harmless_bump⟩)

theorem avatarSafe_removeAvatar (hlocal : isS3 E = false) (id : ℕ) :
    AvatarSafe E (.reading id none) (CustomerService.removeAvatar E id) :=
  avatarSafe_find fun _ => Monitor.keeps_bind.mpr (Monitor.keeps_stmt.mpr
    ⟨.inl rfl, fun _ => trivial, fun _ => avatarSafe_drop hlocal _ (harmless_bump_get id)⟩)

theorem moveUploadedFile_eq (hlocal : isS3 E = false) (file : UploadedFile) :
    UploadHelper.moveUploadedFile E R file (ascii "avatars") =
      (issue (.moveTo (uploadFile E R file) file.contents) >>= fun _ =>
        pure (some (uploadPath R file))) := by
  simp only [UploadHelper.moveUploadedFile, UploadHelper.store, hlocal, Bool.false_eq_true,
    if_false, Prog.stmt_bind, Prog.bind_call_resume]
  rfl

theorem avatarSafe_uploadAvatar (hlocal : isS3 E = false) (hname : RandomName R.fileName) (id : ℕ)
    (file : UploadedFile) :
    AvatarSafe E (.reading id (some (uploadPath R file)))
      (CustomerService.uploadAvatar E R id file) := by
  refine avatarSafe_find fun row => ?_
  cases CustomerService.avatarError E file with
  | some e => trivial
  | none =>
    simp only [moveUploadedFile_eq hlocal]
    refine Monitor.keeps_bind.mpr (Monitor.keeps_bind.mpr (Monitor.keeps_stmt.mpr
      ⟨⟨_, _, absolutePath_uploadPath hname file, rfl⟩, fun _ => trivial, fun _ => ?_⟩))
    exact Monitor.keeps_bind.mpr (Monitor.keeps_stmt.mpr
      ⟨rfl, fun _ => trivial, fun _ => avatarSafe_drop hlocal _ (harmless_bump_get id)⟩)

end Safe

/-- The call is one of the three that change an avatar, and draws a random name. -/
def ChangesAvatar (c : CustomerCall × CustomerEntropy) : Prop :=
  RandomName c.2.fileName ∧
    match c.1 with
    | .uploadAvatar .. | .removeAvatar _ | .delete _ => True
    | _ => False

instance (c : CustomerCall × CustomerEntropy) : Decidable (ChangesAvatar c) :=
  match c with
  | ⟨.uploadAvatar .., _⟩ | ⟨.removeAvatar _, _⟩ | ⟨.delete _, _⟩ =>
    inferInstanceAs (Decidable (_ ∧ True))
  | ⟨.list .., _⟩ | ⟨.stats, _⟩ | ⟨.get _, _⟩ | ⟨.create _, _⟩ | ⟨.update .., _⟩
  | ⟨.importJob .., _⟩ | ⟨.evict _, _⟩ => inferInstanceAs (Decidable (_ ∧ False))

/-- The phase in which a call starts. -/
def AvatarPhase.initial : CustomerCall × CustomerEntropy → AvatarPhase
  | (.uploadAvatar id file, R) => reading id (some (uploadPath R file))
  | (.removeAvatar id, _) => reading id none
  | (.delete id, _) => reading id none
  | _ => ended

theorem avatarSafe_start (hlocal : isS3 E = false) {c : CustomerCall × CustomerEntropy}
    (h : ChangesAvatar c) : AvatarSafe E (AvatarPhase.initial c) (CustomerPool.start E c) := by
  obtain ⟨call, R⟩ := c
  cases call with
  | uploadAvatar id file =>
    exact Monitor.keeps_map.mpr (avatarSafe_uploadAvatar hlocal h.1 id file)
  | removeAvatar id => exact Monitor.keeps_map.mpr (avatarSafe_removeAvatar hlocal id)
  | delete id => exact Monitor.keeps_map.mpr (avatarSafe_delete hlocal id)
  | _ => exact h.2.elim

/-! ## A sample setting -/

namespace CustomerSample

/-- The draw of a call whose file is named by this digit. -/
def draw (n : UInt8) : CustomerEntropy := ⟨List.replicate 15 48 ++ [48 + n], 0⟩

def photo : UploadedFile where
  error := 0
  size := some 3
  clientFilename := ascii "photo.png"
  mimeType := some (ascii "image/png")
  contents := ascii "png"

/-- A customer with an avatar, if any. -/
def withAvatar (path : Option Bytes) : CustomerDb :=
  let ann : CustomerRow := { customer (ascii "Ann") with
    id := 1, avatarPath := path, createdAt := ⟨0⟩, updatedAt := none, deletedAt := none }
  { db with customer := ⟨[ann], 2⟩ }

/-- The customer has the avatar of the first draw, and its file is there. -/
def avatarDb : CustomerDb :=
  (withAvatar (some (uploadPath (draw 0) photo))).withFile (uploadFile env (draw 0) photo)
    (some photo.contents)

/-- A new upload for the customer. -/
def upload (n : UInt8) : CustomerCall × CustomerEntropy := (.uploadAvatar 1 photo, draw n)

/-- Nothing starts and nothing fails. -/
def isStep : CustomerAct → Bool
  | .step _ => true
  | _ => false

end CustomerSample

end SlimStarter
