import SlimStarter.Lib.Path
import SlimStarter.Customer.Avatar

/-!
# Paths of uploads

`absolutePath` turns the path that `moveUploadedFile` returns into the location where the file was
stored, so that `deleteUploadedFile` removes this file and no other; and whatever it is given, it
gives no location outside the upload root (`upload_paths_invert`). The upload root is the directory
that every location is composed with, up to and including the separator.
-/

namespace SlimStarter

open UploadHelper (absolutePath relativePath trimSlashes isS3 moveUploadedFile deleteUploadedFile)

variable {E : CustomerEnv} {R : CustomerEntropy} {file : UploadedFile} {folder : Bytes}

/-- The location of a stored file. -/
def location (E : CustomerEnv) (R : CustomerEntropy) (file : UploadedFile) (folder : Bytes) :
    Bytes :=
  E.uploadDirectory ++ 47 :: relativePath R file folder

/-- The directory that locations are composed with, with its separator. -/
def uploadRoot (E : CustomerEnv) : Bytes := E.uploadDirectory ++ [47]

/-- The normal form of a path. -/
def normalise (path : Bytes) : LexicalPath.NormalPath UInt8 := LexicalPath.normalise 47 46 path

theorem run_moveUploadedFile (hlocal : isS3 E = false) (i : Int) (db : CustomerDb) :
    (moveUploadedFile E R file folder).run E.exec i db =
      (.ok (some (ascii "uploads/" ++ relativePath R file folder)),
        db.withFile (location E R file folder) (some file.contents)) := by
  simp only [moveUploadedFile, UploadHelper.store, hlocal, Bool.false_eq_true, if_false]
  rfl

theorem run_deleteUploadedFile {path absolute : Bytes} {db : CustomerDb} (hlocal : isS3 E = false)
    (hpath : absolutePath E path = some absolute) (hfile : (db.files absolute).isSome = true)
    (i : Int) :
    (deleteUploadedFile E path).run E.exec i db = (.ok true, db.withFile absolute none) := by
  simp only [deleteUploadedFile, hlocal, Bool.false_eq_true, if_false, hpath, Prog.stmt_bind,
    Prog.run_call, CustomerEnv.exec, Prog.resume_ok, hfile, if_true]
  show (Except.ok (db.files absolute).isSome, db.withFile absolute none) = _
  rw [hfile]

/-- Every location is the upload root or below it. -/
theorem below_absolutePath {path absolute : Bytes} (h : absolutePath E path = some absolute) :
    (normalise (uploadRoot E)).Below (normalise absolute) := by
  simp only [absolutePath] at h
  split_ifs at h with hprefix hrelative
  rw [not_or] at hrelative
  obtain rfl := Option.some.inj h
  exact LexicalPath.below_normalise hrelative.2

/-- On the filesystem target, the path of a file that is stored with a random name in a folder
without two dots leads to the location of the file, and removing it removes this file and leaves
every other one. No path leads outside the upload root. -/
theorem upload_paths_invert (hlocal : isS3 E = false) (hname : RandomName R.fileName)
    (hfolder : ¬ [46, 46] <:+: folder) (file : UploadedFile) (i : Int) (db : CustomerDb) :
    (∃ path, (moveUploadedFile E R file folder).run E.exec i db =
          (.ok (some path), db.withFile (location E R file folder) (some file.contents))
        ∧ absolutePath E path = some (location E R file folder)
        ∧ ∀ (i' : Int) (db' : CustomerDb), (db'.files (location E R file folder)).isSome = true →
          (deleteUploadedFile E path).run E.exec i' db' =
            (.ok true, db'.withFile (location E R file folder) none))
      ∧ ∀ path absolute, absolutePath E path = some absolute →
        (normalise (uploadRoot E)).Below (normalise absolute) := by
  have habsolute := @absolutePath_relativePath E R folder hname hfolder file
  exact ⟨⟨_, run_moveUploadedFile hlocal i db, habsolute, fun i' db' hfile =>
    run_deleteUploadedFile hlocal habsolute hfile i'⟩, fun _ _ h => below_absolutePath h⟩

open CustomerSample in
/-- A file with a name that is all dots and separators. -/
theorem upload_paths_invert_sample :
    let file : UploadedFile := ⟨0, none, ascii "../..//a.b/..", none, ascii "x"⟩
    (∃ path, (moveUploadedFile env (draw 1) file (ascii "/avatars/")).run env.exec 0 db =
          (.ok (some path), db.withFile (location env (draw 1) file (ascii "/avatars/"))
            (some (ascii "x")))
        ∧ absolutePath env path = some (location env (draw 1) file (ascii "/avatars/"))
        ∧ ∀ (i' : Int) (db' : CustomerDb),
          (db'.files (location env (draw 1) file (ascii "/avatars/"))).isSome = true →
          (deleteUploadedFile env path).run env.exec i' db' =
            (.ok true, db'.withFile (location env (draw 1) file (ascii "/avatars/")) none))
      ∧ ∀ path absolute, absolutePath env path = some absolute →
        (normalise (uploadRoot env)).Below (normalise absolute) :=
  upload_paths_invert (by decide +kernel) (by decide +kernel) (by decide +kernel) _ 0 db

end SlimStarter
