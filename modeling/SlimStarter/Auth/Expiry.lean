import SlimStarter.Auth.History

/-!
# When a token expires

A token that expires at the instant `e` is stored with what the local clock shows at `e`. `refresh`
reads this text back, and a login compares it with what the clock shows now.

`strtotime` takes the first instant at which the clock shows the text (`Zone.strtotime_date`), so a
token is refused from then on (`refresh_expired_iff`). Where the clock has been set back since, that
is before `e`, and for a while before `e` the clock also shows later texts. A token expires exactly
at `e` where the clock never showed a text as late before (`expiry_exact_iff`), as in a zone without
changes (`Zone.Fixed.expiry_exact`).
-/

namespace SlimStarter

open AuthService RefreshTokenModel

theorem LocalTime.lt_iff {a b : LocalTime} : a < b ↔ ¬ b < a ∧ a ≠ b := by
  obtain ⟨a⟩ := a
  obtain ⟨b⟩ := b
  show a < b ↔ ¬ b < a ∧ _
  rw [ne_eq, LocalTime.mk.injEq]
  omega

namespace Zone

variable (z : Zone)

theorem offset_mem (i : Int) : z.offset i ∈ z.offsets := by
  unfold offset offsets
  cases h : (z.changes.filter (·.1 ≤ i)).getLast? with
  | none => simp
  | some change =>
    have hmem : change ∈ z.changes := (List.mem_filter.mp (List.mem_of_getLast? h)).1
    exact List.mem_cons_of_mem _ (List.mem_map.mpr ⟨change, hmem, rfl⟩)

/-- `strtotime` reads a stored text as the first instant at which the clock shows it. -/
theorem strtotime_date (e : Int) :
    ∃ i, z.strtotime (z.date e) = some i ∧ z.date i = z.date e ∧
      ∀ j, z.date j = z.date e → i ≤ j := by
  have hcandidate : ∀ j, z.date j = z.date e → j ∈ (z.offsets.map ((z.date e).clock - ·)).filter
      fun i => z.date i = z.date e := by
    intro j hj
    simp only [List.mem_filter, List.mem_map, decide_eq_true_eq]
    refine ⟨⟨z.offset j, z.offset_mem j, ?_⟩, hj⟩
    rw [← hj]
    show j + z.offset j - z.offset j = j
    omega
  unfold strtotime
  cases hmin : ((z.offsets.map ((z.date e).clock - ·)).filter
      fun i => z.date i = z.date e).min? with
  | none =>
    have hnil := List.min?_eq_none_iff.mp hmin
    exact absurd (hcandidate e rfl) (by simp [hnil])
  | some i =>
    obtain ⟨hmem, hle⟩ := List.min?_eq_some_iff.mp hmin
    have hdate := (List.mem_filter.mp hmem).2
    exact ⟨i, rfl, by simpa using hdate, fun j hj => hle j (hcandidate j hj)⟩

/-- A stored text is in the past once the clock has shown it. -/
theorem isExpired_date_iff (e now : Int) :
    isExpired (z.strtotime (z.date e)) now = true ↔ ∃ j ≤ now, z.date j = z.date e := by
  obtain ⟨i, hi, hdate, hfirst⟩ := z.strtotime_date e
  simp only [isExpired, hi, decide_eq_true_eq]
  constructor
  · intro hle
    exact ⟨i, hle, hdate⟩
  · rintro ⟨j, hj, hdate⟩
    exact (hfirst j hdate).trans hj

end Zone

section Expiry

variable {E : AuthEnv} {db : AuthDb} {token : Bytes} {r : RefreshTokenRow} {e now : Int}

/-- `refresh` refuses the token as expired. -/
def RefusedAsExpired (E : AuthEnv) (db : AuthDb) (token : Bytes) (now : Int) : Prop :=
  ∀ (R : Entropy) (ua ip : Option Bytes), ((refresh E R token ua ip).run E.exec now db).1 =
    .error (.appException "Session has expired. Please sign in again." HttpStatus.unauthorized)

/-- A login of the account revokes the row. -/
def RevokedByLogin (E : AuthEnv) (db : AuthDb) (r : RefreshTokenRow) (now : Int) : Prop :=
  ∃ r' ∈ (E.exec (.revokeExpiredForUser r.userId) now db).2.refreshToken.rows,
    r'.id = r.id ∧ r'.revokedAt ≠ none

/-- The token of `r`, which is to expire at `e`, is refused from `e` on, and revoked only then. -/
structure ExpiresExactly (E : AuthEnv) (db : AuthDb) (token : Bytes) (r : RefreshTokenRow)
    (e now : Int) : Prop where
  refused : RefusedAsExpired E db token now ↔ e ≤ now
  revoked : RevokedByLogin E db r now → e ≤ now

/-! ## The two comparisons -/

theorem refresh_expired_iff (hfound : findByHash db (E.sha256 token) = some r)
    (hlive : r.revokedAt = none) (hexpires : r.expiresAt = E.zone.date e) :
    RefusedAsExpired E db token now ↔ ∃ j ≤ now, E.zone.date j = E.zone.date e := by
  rw [← E.zone.isExpired_date_iff e now, ← hexpires]
  by_cases hexpired : isExpired (E.zone.strtotime r.expiresAt) now = true
  · refine iff_of_true (fun R ua ip => ?_) hexpired
    rw [refresh_run, hfound]
    simp [hlive, hexpired]
  · refine iff_of_false (fun hrefused => ?_) hexpired
    have hrun := hrefused ⟨[], [], []⟩ none none
    rw [refresh_run, hfound] at hrun
    simp only [hlive, Option.isSome_none, Bool.false_eq_true, if_false, hexpired] at hrun
    split at hrun
    · exact absurd hrun (by simp [Failure.appException])
    · rw [createSession_run] at hrun
      split_ifs at hrun
      exact absurd hrun (by simp [Failure.appException])

theorem revokedByLogin_iff (hkey : db.refreshToken.Keyed (·.id)) (hr : r ∈ db.refreshToken.rows)
    (hlive : r.revokedAt = none) :
    RevokedByLogin E db r now ↔ r.expiresAt < E.zone.date now := by
  have hrows : (E.exec (.revokeExpiredForUser r.userId) now db).2.refreshToken.rows =
      db.refreshToken.rows.map (revoked (E.zone.date now) fun r' =>
        r'.userId = r.userId && r'.expiresAt < E.zone.date now) := rfl
  unfold RevokedByLogin
  rw [hrows]
  constructor
  · rintro ⟨r', hr', hid, hrevoked⟩
    obtain ⟨r₀, hr₀, rfl⟩ := List.mem_map.mp hr'
    obtain rfl := hkey.eq_of_key hr₀ hr ((revoked_id r₀).symm.trans hid)
    by_contra hlater
    exact hrevoked (revoked_eq_none.mpr ⟨hlive, by simp [hlater]⟩)
  · intro hlater
    refine ⟨_, List.mem_map.mpr ⟨r, hr, rfl⟩, revoked_id r, fun hnone => ?_⟩
    exact absurd (revoked_eq_none.mp hnone).2 (by simp [hlater])

/-- At one instant: before `e`, the clock has not shown the text of `e`, nor does it show a later
one. -/
theorem expiresExactly_iff (hkey : db.refreshToken.Keyed (·.id))
    (hfound : findByHash db (E.sha256 token) = some r) (hlive : r.revokedAt = none)
    (hexpires : r.expiresAt = E.zone.date e) :
    ExpiresExactly E db token r e now ↔ (now < e →
      (∀ j ≤ now, E.zone.date j ≠ E.zone.date e) ∧ ¬ E.zone.date e < E.zone.date now) := by
  have hrefused := @refresh_expired_iff E db token r e now hfound hlive hexpires
  have hrevoked := @revokedByLogin_iff E db r now hkey (findByHash_mem hfound).1 hlive
  rw [hexpires] at hrevoked
  constructor
  · rintro ⟨hexact, honly⟩ hbefore
    refine ⟨fun j hj hdate => ?_, fun hlater => ?_⟩
    · exact absurd (hexact.mp (hrefused.mpr ⟨j, hj, hdate⟩)) (by omega)
    · exact absurd (honly (hrevoked.mpr hlater)) (by omega)
  · intro h
    refine ⟨⟨fun hr => ?_, fun hdue => hrefused.mpr ⟨e, hdue, rfl⟩⟩, fun hr => ?_⟩
    · by_contra hbefore
      obtain ⟨j, hj, hdate⟩ := hrefused.mp hr
      exact (h (by omega)).1 j hj hdate
    · by_contra hbefore
      exact (h (by omega)).2 (hrevoked.mp hr)

/-- The token that was issued at `i` for `d` seconds expires exactly, at an instant and at all of
them, where the clock has not shown as late a text before. -/
theorem expiry_exact_iff {i d : Int} (hkey : db.refreshToken.Keyed (·.id))
    (hfound : findByHash db (E.sha256 token) = some r) (hlive : r.revokedAt = none)
    (hexpires : r.expiresAt = E.zone.date (i + d)) :
    (∀ now, ExpiresExactly E db token r (i + d) now ↔ (now < i + d →
        (∀ j ≤ now, E.zone.date j ≠ E.zone.date (i + d))
          ∧ ¬ E.zone.date (i + d) < E.zone.date now))
      ∧ ((∀ now, ExpiresExactly E db token r (i + d) now) ↔
        ∀ j < i + d, E.zone.date j < E.zone.date (i + d)) := by
  have hat := fun now => @expiresExactly_iff E db token r (i + d) now hkey hfound hlive hexpires
  refine ⟨hat, ?_⟩
  rw [forall_congr' hat]
  constructor
  · intro h j hj
    exact LocalTime.lt_iff.mpr ⟨(h j hj).2, (h j hj).1 j le_rfl⟩
  · intro h now hnow
    exact ⟨fun j hj => (LocalTime.lt_iff.mp (h j (by omega))).2,
      (LocalTime.lt_iff.mp (h now hnow)).1⟩

/-- In a zone whose clock is never changed, every token expires exactly. -/
theorem Zone.Fixed.expiry_exact (h : E.zone.Fixed) (hkey : db.refreshToken.Keyed (·.id))
    (hfound : findByHash db (E.sha256 token) = some r) (hlive : r.revokedAt = none)
    (hexpires : r.expiresAt = E.zone.date e) (now : Int) : ExpiresExactly E db token r e now := by
  refine (expiresExactly_iff hkey hfound hlive hexpires).mpr
    fun hbefore => ⟨fun j hj hdate => ?_, ?_⟩
  · rw [h.date, h.date, LocalTime.mk.injEq] at hdate
    omega
  · rw [h.date_lt]
    omega

end Expiry

/-! ## A clock that is set back -/

namespace Sample

/-- A zone that sets its clock back by an hour at the instant 0. -/
def autumn : AuthEnv := { env with zone := ⟨7200, [(0, 3600)]⟩ }

/-- A token that was issued so that it expires half an hour after that. -/
def autumnRow : RefreshTokenRow where
  id := 1
  userId := 1
  familyId := (entropy 1).family
  tokenHash := autumn.sha256 (token 1)
  expiresAt := autumn.zone.date (1800 - ttlSeconds 30 + ttlSeconds 30)
  revokedAt := none
  userAgent := none
  ipAddress := none
  createdAt := autumn.zone.date (1800 - ttlSeconds 30)

def autumnDb : AuthDb := ⟨⟨[], 2⟩, ⟨[autumnRow], 2⟩⟩

theorem autumnDb_keyed : autumnDb.refreshToken.Keyed (·.id) :=
  ⟨List.pairwise_singleton _ _, by simp [autumnDb, autumnRow]⟩

theorem autumnDb_found : findByHash autumnDb (autumn.sha256 (token 1)) = some autumnRow := by
  simp [findByHash, Table.first, autumnDb, autumnRow]

end Sample

open Sample

/-- An hour before the clock is set back, it has not shown the text of the expiry yet. -/
theorem expiry_exact_sample :
    ExpiresExactly autumn autumnDb (token 1) autumnRow (1800 - ttlSeconds 30 + ttlSeconds 30)
        (-3600) := by
  refine ((expiry_exact_iff autumnDb_keyed autumnDb_found rfl rfl).1 (-3600)).mpr fun _ => ⟨?_, ?_⟩
  · intro j hj hdate
    have hoffset : autumn.zone.offset j = 7200 := by
      have hnone : ¬ (0 : Int) ≤ j := by omega
      simp [Zone.offset, autumn, hnone]
    have hlast : autumn.zone.offset 1800 = 3600 := by decide
    have hclock := LocalTime.mk.inj hdate
    simp only [hoffset, sub_add_cancel, hlast] at hclock
    omega
  · decide

/-- A quarter of an hour before the clock is set back, the token is refused as expired and a login
revokes it, 45 minutes before it expires. -/
theorem expires_early_when_set_back :
    ¬ ExpiresExactly autumn autumnDb (token 1) autumnRow (1800 - ttlSeconds 30 + ttlSeconds 30)
        (-900) := by
  intro h
  have hrevoked : RevokedByLogin autumn autumnDb autumnRow (-900) := by
    refine ⟨_, List.mem_singleton_self _, ?_, ?_⟩ <;> decide +kernel
  have hdue := h.revoked hrevoked
  simp [ttlSeconds] at hdue

end SlimStarter
