import SlimStarter.Auth.Families

/-!
# Accounts do not reach each other

A token that was issued has a row of the account it was issued to (`recorded_course`), and a family
has one account (`Orderly`). So what `refresh` and `logout` revoke for a presented token belongs to
the account that the token was issued to, and a password change revokes rows of its own account
only, whatever token it is presented with: a call for one account leaves the rows of every other as
they are (`accounts_isolated`).
-/

namespace SlimStarter

open AuthService RefreshTokenModel

variable {E : AuthEnv} {db db' db'' db₀ : AuthDb} {R : Entropy} {now : Int} {u v : ℕ}
variable {evs : List AuthEvent} {ev : AuthEvent}

/-- The rows of the account `u` are the same in both. -/
structure SameRows (u : ℕ) (db db' : AuthDb) : Prop where
  user : db'.user.rows.filter (·.id = u) = db.user.rows.filter (·.id = u)
  refreshToken :
    db'.refreshToken.rows.filter (·.userId = u) = db.refreshToken.rows.filter (·.userId = u)

namespace SameRows

theorem refl : SameRows u db db := ⟨rfl, rfl⟩

theorem trans (h : SameRows u db db') (h' : SameRows u db' db'') : SameRows u db db'' :=
  ⟨h'.user.trans h.user, h'.refreshToken.trans h.refreshToken⟩

theorem updateById {f : UserRow → UserRow} (hv : v ≠ u) (hid : ∀ r, (f r).id = r.id) :
    SameRows u db (UserModel.updateById db v f).2 where
  user := by
    simp only [UserModel.updateById, Table.update]
    rw [List.filter_map]
    have hkeep : ((fun r : UserRow => decide (r.id = u)) ∘
        fun r => if decide (r.id = v) = true then f r else r) = fun r => decide (r.id = u) := by
      funext r
      by_cases hr : r.id = v <;> simp [hr, hid]
    rw [hkeep]
    refine (List.map_congr_left fun r hr => ?_).trans (List.map_id _)
    have hne : r.id ≠ v := by
      simp only [List.mem_filter, decide_eq_true_eq] at hr
      exact fun h => hv (h.symm.trans hr.2)
    simp [hne]
  refreshToken := rfl

theorem revokeWhere {i : LocalTime} {p : RefreshTokenRow → Bool}
    (h : ∀ r ∈ db.refreshToken.rows, p r = true → r.userId ≠ u) :
    SameRows u db (revokeWhere i db p).2 where
  user := rfl
  refreshToken := by
    rw [revokeWhere_rows, List.filter_map]
    have hkeep : ((fun r : RefreshTokenRow => decide (r.userId = u)) ∘ revoked i p) =
        fun r => decide (r.userId = u) := by
      funext r
      simp
    rw [hkeep]
    refine (List.map_congr_left fun r hr => ?_).trans (List.map_id _)
    simp only [List.mem_filter, decide_eq_true_eq] at hr
    refine revoked_of_spared ?_
    by_contra hp
    exact h r hr.1 (by simpa using hp) hr.2

theorem insert {row : ℕ → RefreshTokenRow} (h : ∀ id, (row id).userId ≠ u) :
    SameRows u db { db with refreshToken := db.refreshToken.insert row } where
  user := rfl
  refreshToken := by
    simp [Table.insert, List.filter_append, h]

theorem createSession {user : UserRow} {ua ip familyId : Option Bytes} (h : user.id ≠ u) :
    SameRows u db ((createSession E R user ua ip familyId).run E.exec now db).2 := by
  rw [createSession_run]
  split_ifs
  · exact .refl
  · exact .insert fun _ => h

end SameRows

theorem login_sameRows {dto : LoginRequest} {ua ip : Option Bytes}
    (h : ∀ w, UserModel.findByEmail E.sqlEq db dto.email = some w → w.id ≠ u) :
    SameRows u db ((login E R dto ua ip).run E.exec now db).2 := by
  rw [login_run]
  cases hfound : UserModel.findByEmail E.sqlEq db dto.email with
  | none => exact .refl
  | some user =>
    have hne := h user hfound
    simp only
    split_ifs
    · have htouched : SameRows u db (UserModel.touchLastLogin (E.zone.date now) db user.id).2 :=
        .updateById hne fun _ => rfl
      refine htouched.trans (.trans (.revokeWhere fun r _ hp => ?_) (.createSession hne))
      simp only [Bool.and_eq_true, decide_eq_true_eq] at hp
      exact hp.1 ▸ hne
    · exact .refl

theorem updateProfile_sameRows {name : Bytes} (hv : v ≠ u) :
    SameRows u db ((updateProfile v name).run E.exec now db).2 := by
  rw [updateProfile_run]
  cases UserModel.findById db v with
  | none => exact .refl
  | some user =>
    simp only [user_run]
    have hsame : SameRows u db (UserModel.updateProfile (E.zone.date now) db v name).2 :=
      .updateById hv fun _ => rfl
    split <;> exact hsame

/-- A password change leaves other accounts alone, whatever token it is presented with. -/
theorem changePassword_sameRows {dto : ChangePasswordRequest} {token : Option Bytes} (hv : v ≠ u) :
    SameRows u db ((changePassword E R v dto token).run E.exec now db).2 := by
  rw [changePassword_run]
  cases UserModel.findById db v with
  | none => exact .refl
  | some user =>
    simp only
    split_ifs
    · cases E.passwordHash R.salt dto.newPassword with
      | none => exact .refl
      | some hash =>
        have hwritten : SameRows u db (UserModel.updatePassword (E.zone.date now) db v hash).2 :=
          .updateById hv fun _ => rfl
        simp only
        refine hwritten.trans (.revokeWhere fun r _ hp => ?_)
        simp only [revokesOther, Bool.and_eq_true, decide_eq_true_eq] at hp
        exact hp.1 ▸ hv
    · exact .refl

/-- What a presented token makes go belongs to the account of its row. -/
theorem revoke_sameRows {drawn : List Bytes} {i : LocalTime} {row : RefreshTokenRow}
    (h : Orderly drawn db.refreshToken) (hrow : row ∈ db.refreshToken.rows) (hv : row.userId ≠ u) :
    SameRows u db (revoke i db row.id).2 ∧ SameRows u db (revokeFamily i db row.familyId).2 := by
  constructor
  · refine .revokeWhere fun r hr hp => ?_
    rw [h.ids r hr row hrow (by simpa using hp)]
    exact hv
  · refine .revokeWhere fun r hr hp => ?_
    rw [h.owner row hrow r hr (by simpa using hp)]
    exact hv

theorem refresh_sameRows {drawn : List Bytes} {token : Bytes} {ua ip : Option Bytes}
    (h : Orderly drawn db.refreshToken)
    (hrow : ∀ row, findByHash db (E.sha256 token) = some row → row.userId ≠ u) :
    SameRows u db ((refresh E R token ua ip).run E.exec now db).2 := by
  rw [refresh_run]
  cases hfound : findByHash db (E.sha256 token) with
  | none => exact .refl
  | some row =>
    have hne := hrow row hfound
    have hspared := fun i => revoke_sameRows (i := i) h (findByHash_mem hfound).1 hne
    simp only
    split_ifs
    · exact (hspared _).2
    · exact (hspared _).1
    · cases huser : UserModel.findById db row.userId with
      | none => exact .refl
      | some user =>
        refine .trans (hspared _).1 (.createSession ?_)
        rw [UserModel.findById_id huser]
        exact hne

theorem logout_sameRows {drawn : List Bytes} {token : Bytes} (h : Orderly drawn db.refreshToken)
    (hrow : ∀ row, findByHash db (E.sha256 token) = some row → row.userId ≠ u) :
    SameRows u db ((logout E token).run E.exec now db).2 := by
  rw [logout_run]
  cases hfound : findByHash db (E.sha256 token) with
  | none => exact .refl
  | some row => exact (revoke_sameRows h (findByHash_mem hfound).1 (hrow row hfound)).2

/-! ## Tokens and their rows -/

/-- Every token that was issued has a row of its account. -/
def Recorded (E : AuthEnv) (s : Course) : Prop :=
  ∀ token F v a, .issued token F v a ∈ s.history →
    ∃ r ∈ s.db.refreshToken.rows, r.tokenHash = E.sha256 token ∧ r.userId = v

/-- Rows keep their hash and their account. -/
def KeepsTokens (t t' : Table RefreshTokenRow) : Prop :=
  ∀ r ∈ t.rows, ∃ r' ∈ t'.rows, r'.tokenHash = r.tokenHash ∧ r'.userId = r.userId

theorem keepsTokens_revokeWhere (i : LocalTime) (p : RefreshTokenRow → Bool) :
    KeepsTokens db.refreshToken (revokeWhere i db p).2.refreshToken :=
  fun r hr => ⟨revoked i p r, List.mem_map_of_mem hr, revoked_tokenHash r, revoked_userId r⟩

theorem KeepsTokens.insert {t t' : Table RefreshTokenRow} (h : KeepsTokens t t')
    (row : ℕ → RefreshTokenRow) : KeepsTokens t (t'.insert row) := by
  intro r hr
  obtain ⟨r', hr', hsame⟩ := h r hr
  exact ⟨r', by simp [hr'], hsame⟩

section Facts

variable {H : List Fact} {token F : Bytes} {a : Int}

theorem not_issued_error (e : Failure) : .issued token F v a ∉ ev.facts H (.error e) := by
  obtain ⟨call, now, R⟩ := ev
  cases call <;> simp [AuthEvent.facts]

theorem not_issued_void : .issued token F v a ∉ ev.facts H (.ok .void) := by
  obtain ⟨call, now, R⟩ := ev
  cases call <;> simp [AuthEvent.facts]

theorem issued_session {sess : Session}
    (h : .issued token F v a ∈ ev.facts H (.ok (.session sess))) :
    token = sess.refreshToken ∧ v = sess.user.id := by
  obtain ⟨call, now, R⟩ := ev
  cases call <;> simp_all [AuthEvent.facts]

end Facts

/-- A call keeps the rows, and where it issues a token it adds the row of the token. -/
theorem AuthEvent.Effect.tokens {res : Except Failure AuthResult} (heff : ev.Effect E db res db') :
    KeepsTokens db.refreshToken db'.refreshToken
      ∧ ∀ H token F v a, .issued token F v a ∈ ev.facts H res →
        ∃ r ∈ db'.refreshToken.rows, r.tokenHash = E.sha256 token ∧ r.userId = v := by
  have hsame : KeepsTokens db.refreshToken db.refreshToken := fun r hr => ⟨r, hr, rfl, rfl⟩
  cases heff with
  | quiet _ hfacts htab =>
    refine ⟨htab ▸ hsame, fun H token F v a h => ?_⟩
    simp [hfacts H] at h
  | unknown _ _ _ _ _ hres _ htab | orphaned _ _ _ _ _ _ hres _ _ htab =>
    exact ⟨htab ▸ hsame, fun H token F v a h => absurd (hres ▸ h) (not_issued_error _)⟩
  | reused _ _ _ _ _ _ hres _ _ htab | expired _ _ _ _ _ _ hres _ _ _ htab
  | clashed _ _ _ _ _ _ hres _ _ _ htab | unopened _ _ _ hres _ htab =>
    exact ⟨htab ▸ keepsTokens_revokeWhere _ _,
      fun H token F v a h => absurd (hres ▸ h) (not_issued_error _)⟩
  | loggedOutUnknown _ _ hres _ htab =>
    exact ⟨htab ▸ hsame, fun H token F v a h => absurd (hres ▸ h) not_issued_void⟩
  | loggedOut _ _ _ hres _ htab | changed _ _ _ _ hres htab =>
    exact ⟨htab ▸ keepsTokens_revokeWhere _ _,
      fun H token F v a h => absurd (hres ▸ h) not_issued_void⟩
  | rotated _ _ _ _ _ _ hres _ _ _ _ _ htab | opened _ _ _ _ _ hres _ _ _ htab =>
    refine ⟨htab ▸ (keepsTokens_revokeWhere _ _).insert _, fun H token F v a h => ?_⟩
    obtain ⟨rfl, rfl⟩ := issued_session (hres ▸ h)
    rw [htab]
    exact ⟨_, Table.mem_insert.mpr (.inr rfl), rfl, rfl⟩

theorem recorded_course : Recorded E (course E db₀ evs) := by
  induction evs using List.reverseRecOn with
  | nil => exact fun _ _ _ _ h => by simp [course] at h
  | append_singleton evs ev ih =>
    obtain ⟨hkeep, hnew⟩ := (exec_effect E (course E db₀ evs).db ev).1.tokens
    rw [course_concat]
    intro token F v a h
    rcases List.mem_append.mp h with h | h
    · exact hnew _ token F v a h
    · obtain ⟨r, hr, hhash, huser⟩ := ih token F v a h
      obtain ⟨r', hr', hhash', huser'⟩ := hkeep r hr
      exact ⟨r', hr', hhash'.trans hhash, huser'.trans huser⟩

/-- The call is made for the account `v`: it signs in to it, presents a token that was issued to it,
or changes its profile or its password. -/
def AuthCall.MadeFor (E : AuthEnv) (s : Course) (v : ℕ) : AuthCall → Prop
  | .login dto _ _ => ∀ w, UserModel.findByEmail E.sqlEq s.db dto.email = some w → w.id = v
  | .refresh token _ _ | .logout token => ∃ F a, .issued token F v a ∈ s.history
  | .updateProfile id _ | .changePassword id _ _ => id = v
  | .register .. | .user _ => False

/-- In every run a family has one account, and a call for one account leaves the rows of every other
account as they are. -/
theorem accounts_isolated (h₀ : db₀.refreshToken.rows = []) (hfresh : (drawnFamilies evs).Nodup) :
    let s := course E db₀ evs
    (∀ r ∈ s.db.refreshToken.rows, ∀ r' ∈ s.db.refreshToken.rows,
        r'.familyId = r.familyId → r'.userId = r.userId)
      ∧ ∀ (ev : AuthEvent) (u v : ℕ), u ≠ v → ev.call.MadeFor E s v →
        SameRows u s.db (ev.exec E s.db).2 := by
  intro s
  have horder : Orderly (drawnFamilies evs) s.db.refreshToken := orderly_course h₀ hfresh
  refine ⟨horder.owner, fun ev u v hne hfor => ?_⟩
  have hrow : ∀ token, (∃ F a, .issued token F v a ∈ s.history) →
      ∀ row, findByHash s.db (E.sha256 token) = some row → row.userId ≠ u := by
    rintro token ⟨F, a, hissued⟩ row hfound
    obtain ⟨r, hr, hhash, rfl⟩ := recorded_course token F v a hissued
    obtain ⟨hmem, hhash'⟩ := findByHash_mem hfound
    rw [horder.hashes row hmem r hr (hhash'.trans hhash.symm)]
    exact hne.symm
  obtain ⟨call, now, R⟩ := ev
  cases call with
  | login dto ua ip =>
    simp only [AuthEvent.exec, AuthCall.prog, Prog.run_map]
    exact login_sameRows fun w hw => (hfor w hw).trans_ne hne.symm
  | refresh token ua ip =>
    simp only [AuthEvent.exec, AuthCall.prog, Prog.run_map]
    exact refresh_sameRows horder (hrow token hfor)
  | logout token =>
    simp only [AuthEvent.exec, AuthCall.prog, Prog.run_map]
    exact logout_sameRows horder (hrow token hfor)
  | updateProfile id name =>
    simp only [AuthEvent.exec, AuthCall.prog, Prog.run_map]
    exact updateProfile_sameRows (hfor.trans_ne hne.symm)
  | changePassword id dto token =>
    simp only [AuthEvent.exec, AuthCall.prog, Prog.run_map]
    exact changePassword_sameRows (hfor.trans_ne hne.symm)
  | register dto ua ip => exact absurd hfor id
  | user id => exact hfor.elim

/-! ## A sample run -/

namespace Sample

/-- Two accounts, each signed in. -/
def twoAccounts : List AuthEvent :=
  [register 1 1000, ⟨.register ⟨ascii "Bob", ascii "bob@example.com", ascii "secret-2",
    ascii "secret-2"⟩ none none, 2000, entropy 2⟩]

end Sample

open Sample in
/-- A password change of the second account, presented with the token of the first. -/
theorem accounts_isolated_sample :
    let s := course env Sample.db twoAccounts
    let ev : AuthEvent := ⟨.changePassword 2 ⟨ascii "secret-2", ascii "secret-3", ascii "secret-3"⟩
      (some (token 1)), 3000, entropy 3⟩
    (∀ r ∈ s.db.refreshToken.rows, ∀ r' ∈ s.db.refreshToken.rows,
        r'.familyId = r.familyId → r'.userId = r.userId)
      ∧ (ev.exec env s.db).1 = .ok .void ∧ SameRows 1 s.db (ev.exec env s.db).2 :=
  ⟨(@accounts_isolated env Sample.db twoAccounts rfl (by decide +kernel)).1, by decide +kernel,
    (@accounts_isolated env Sample.db twoAccounts rfl (by decide +kernel)).2 _ 1 2 (by decide) rfl⟩

end SlimStarter
