import SlimStarter.Auth.Families

/-!
# The rows and the history

`Synced` relates the `refresh_token` rows to the history of the run: the rows are the tokens issued,
and a row is unrevoked when its token is standing, unless the token has expired by then. Every call
keeps it (`Synced.next`), so `refresh` succeeds exactly on the tokens that are standing and not
expired (`refresh_ok_iff`).

The results here are for a fixed-offset timezone and a hash without collisions.
-/

namespace SlimStarter

open AuthService RefreshTokenModel

/-- The row `r` is that of the token `t`, issued at `a`, and agrees with the history up to the
instant `now`. -/
structure Tracks (E : AuthEnv) (now : Int) (H : List Fact) (r : RefreshTokenRow) (t : Bytes)
    (a : Int) : Prop where
  hash : r.tokenHash = E.sha256 t
  expires : r.expiresAt = E.zone.date (a + ttlSeconds E.ttlDays)
  issued : .issued t r.familyId r.userId a ∈ H
  standing : r.revokedAt = none → Standing H t r.familyId r.userId a
  unrevoked : Standing H t r.familyId r.userId a →
    r.revokedAt = none ∨ a + ttlSeconds E.ttlDays ≤ now

/-- The state after the calls `evs`, the last of them not after `now`. -/
structure Synced (E : AuthEnv) (evs : List AuthEvent) (now : Int) (s : Course) : Prop where
  orderly : Orderly (drawnFamilies evs) s.db.refreshToken
  tracks : ∀ r ∈ s.db.refreshToken.rows, ∃ t a, Tracks E now s.history r t a
  stored : ∀ t F u a, .issued t F u a ∈ s.history →
    ∃ r ∈ s.db.refreshToken.rows, r.tokenHash = E.sha256 t ∧ r.familyId = F
  once : ∀ t F u a F' u' a', .issued t F u a ∈ s.history → .issued t F' u' a' ∈ s.history →
    F = F' ∧ u = u' ∧ a = a'
  tokens : ∀ t F u a, .issued t F u a ∈ s.history → t ∈ drawnTokens evs
  users : ∀ r ∈ s.db.refreshToken.rows, (UserModel.findById s.db r.userId).isSome

section Standing

variable {E : AuthEnv} {evs : List AuthEvent} {now now' : Int} {H fs : List Fact}
  {r : RefreshTokenRow} {t : Bytes} {a : Int} {i : LocalTime} {p : RefreshTokenRow → Bool}

/-- A row still agrees when what revokes it ends its session or finds it expired, and what spares
it does not end its session. -/
theorem Tracks.revoked (h : Tracks E now H r t a) (hle : now ≤ now')
    (hnew : ∀ f ∈ fs, f ≠ .issued t r.familyId r.userId a)
    (hkeep : r.revokedAt = none → p r = false → ∀ f ∈ fs, ¬ f.Ends t r.familyId r.userId)
    (hdrop : r.revokedAt = none → p r = true →
      (∃ f ∈ fs, f.Ends t r.familyId r.userId) ∨ a + ttlSeconds E.ttlDays ≤ now') :
    Tracks E now' (fs ++ H) (revoked i p r) t a where
  hash := by simpa using h.hash
  expires := by simpa using h.expires
  issued := by simpa using .inr h.issued
  standing := by
    intro hn
    obtain ⟨hn, hp⟩ := revoked_eq_none.mp hn
    simp only [revoked_familyId, revoked_userId]
    exact (standing_append hnew).mpr ⟨h.standing hn, hkeep hn hp⟩
  unrevoked := by
    simp only [revoked_familyId, revoked_userId]
    intro hs
    obtain ⟨hs, hfs⟩ := (standing_append hnew).mp hs
    rcases h.unrevoked hs with hn | hold
    · cases hp : p r with
      | false => exact .inl (revoked_eq_none.mpr ⟨hn, hp⟩)
      | true =>
        rcases hdrop hn hp with ⟨f, hf, hends⟩ | hold
        · exact absurd hends (hfs f hf)
        · exact .inr hold
    · exact .inr (hold.trans hle)

namespace Synced

variable {s : Course} {ev : AuthEvent} {db' : AuthDb}

section Hash

variable (hsha : Function.Injective E.sha256)

include hsha in
theorem token_eq (h : Synced E evs now s) {row : RefreshTokenRow} {token : Bytes}
    (hrow : findByHash s.db (E.sha256 token) = some row) :
    row ∈ s.db.refreshToken.rows ∧ ∃ a, Tracks E now s.history row token a := by
  obtain ⟨hmem, hhash⟩ := findByHash_mem hrow
  obtain ⟨t, a, ht⟩ := h.tracks row hmem
  obtain rfl : t = token := hsha (ht.hash.symm.trans hhash)
  exact ⟨hmem, a, ht⟩

include hsha in
theorem familyOf_eq (h : Synced E evs now s) (token : Bytes) :
    familyOf s.history token = (findByHash s.db (E.sha256 token)).map (·.familyId) := by
  cases hrow : findByHash s.db (E.sha256 token) with
  | none =>
    cases hF : familyOf s.history token with
    | none => rfl
    | some F =>
      obtain ⟨u, a, hissued⟩ := mem_of_familyOf hF
      obtain ⟨r, hr, hhash, -⟩ := h.stored _ _ _ _ hissued
      exact absurd hhash (findByHash_eq_none.mp hrow r hr)
  | some row =>
    obtain ⟨-, a, ht⟩ := h.token_eq hsha hrow
    cases hF : familyOf s.history token with
    | none => exact absurd ht.issued (not_mem_of_familyOf hF)
    | some F =>
      obtain ⟨u, a', hissued⟩ := mem_of_familyOf hF
      rw [(h.once _ _ _ _ _ _ _ hissued ht.issued).1]
      rfl

end Hash

/-- No other unrevoked row is of the family of an unrevoked row. -/
theorem familyId_ne (h : Synced E evs now s) {row r : RefreshTokenRow}
    (hrow : row ∈ s.db.refreshToken.rows) (hlive : row.revokedAt = none)
    (hr : r ∈ s.db.refreshToken.rows) (hn : r.revokedAt = none)
    (hne : decide (r.id = row.id) = false) : row.familyId ≠ r.familyId := by
  intro hF
  simp [h.orderly.unrevoked_unique hr hrow hF hn hlive] at hne

/-- A call that issues no token keeps the relation, where it revokes a row only as its facts end
the session or as the token has expired. -/
theorem revoke (h : Synced E evs now s) (fs : List Fact) (hle : now ≤ ev.now)
    (horder : Orderly (drawnFamilies (evs ++ [ev])) db'.refreshToken) (husers : KeepsUsers s.db db')
    (htab : db'.refreshToken = (revokeWhere i s.db p).2.refreshToken)
    (hfs : ∀ f ∈ fs, ∀ t F u a, f ≠ .issued t F u a)
    (hkeep : ∀ r ∈ s.db.refreshToken.rows, ∀ t a, Tracks E now s.history r t a →
      r.revokedAt = none → p r = false → ∀ f ∈ fs, ¬ f.Ends t r.familyId r.userId)
    (hdrop : ∀ r ∈ s.db.refreshToken.rows, ∀ t a, Tracks E now s.history r t a →
      r.revokedAt = none → p r = true →
        (∃ f ∈ fs, f.Ends t r.familyId r.userId) ∨ a + ttlSeconds E.ttlDays ≤ ev.now) :
    Synced E (evs ++ [ev]) ev.now ⟨db', fs ++ s.history⟩ := by
  have hold : ∀ t F u a, .issued t F u a ∈ fs ++ s.history → .issued t F u a ∈ s.history := by
    intro t F u a hmem
    rcases List.mem_append.mp hmem with hmem | hmem
    · exact absurd rfl (hfs _ hmem t F u a)
    · exact hmem
  refine ⟨horder, ?_, ?_, ?_, ?_, ?_⟩
  · simp only [htab, revokeWhere_rows, List.forall_mem_map]
    intro r hr
    obtain ⟨t, a, ht⟩ := h.tracks r hr
    exact ⟨t, a, ht.revoked hle (fun f hf => hfs f hf _ _ _ _) (hkeep r hr t a ht)
      (hdrop r hr t a ht)⟩
  · intro t F u a hmem
    obtain ⟨r, hr, hhash, hF⟩ := h.stored t F u a (hold _ _ _ _ hmem)
    refine ⟨revoked i p r, ?_, by simpa using hhash, by simpa using hF⟩
    rw [htab]
    exact List.mem_map_of_mem hr
  · exact fun t F u a F' u' a' hmem hmem' =>
      h.once t F u a F' u' a' (hold _ _ _ _ hmem) (hold _ _ _ _ hmem')
  · intro t F u a hmem
    simp only [drawnTokens, List.map_append, List.mem_append]
    exact .inl (h.tokens t F u a (hold _ _ _ _ hmem))
  · simp only [htab, revokeWhere_rows, List.forall_mem_map, revoked_userId]
    exact fun r hr => husers _ (h.users r hr)

/-- A call that issues its token keeps the relation in the same way. -/
theorem issue (h : Synced E evs now s) (fs : List Fact) (hle : now ≤ ev.now) {user : UserRow}
    {ua ip fam : Option Bytes}
    (hfresh : ev.entropy.token ∉ drawnTokens evs)
    (horder : Orderly (drawnFamilies (evs ++ [ev])) db'.refreshToken) (husers : KeepsUsers s.db db')
    (huser : (UserModel.findById db' user.id).isSome)
    (htab : db'.refreshToken = (revokeWhere i s.db p).2.refreshToken.insert
      (tokenRow E ev.entropy ev.now user ua ip fam))
    (hfs : ∀ f ∈ fs, ∀ t F u a, f ≠ .issued t F u a)
    (hkeep : ∀ r ∈ s.db.refreshToken.rows, ∀ t a, Tracks E now s.history r t a →
      r.revokedAt = none → p r = false → r.familyId ≠ fam.getD ev.entropy.family
        ∧ ∀ f ∈ fs, ¬ f.Ends t r.familyId r.userId)
    (hdrop : ∀ r ∈ s.db.refreshToken.rows, ∀ t a, Tracks E now s.history r t a →
      r.revokedAt = none → p r = true →
        r.familyId = fam.getD ev.entropy.family ∨ a + ttlSeconds E.ttlDays ≤ ev.now) :
    Synced E (evs ++ [ev]) ev.now ⟨db', .issued ev.entropy.token (fam.getD ev.entropy.family)
      user.id ev.now :: fs ++ s.history⟩ := by
  have hold : ∀ t F u a, .issued t F u a ∈ Fact.issued ev.entropy.token
      (fam.getD ev.entropy.family) user.id ev.now :: fs ++ s.history →
      (t = ev.entropy.token ∧ F = fam.getD ev.entropy.family ∧ u = user.id ∧ a = ev.now)
        ∨ .issued t F u a ∈ s.history := by
    intro t F u a hmem
    rcases List.mem_append.mp hmem with hmem | hmem
    · rcases List.mem_cons.mp hmem with he | hmem
      · exact .inl (by simpa using he)
      · exact absurd rfl (hfs _ hmem t F u a)
    · exact .inr hmem
  have hmap : ∀ r ∈ s.db.refreshToken.rows, revoked i p r ∈ db'.refreshToken.rows := by
    intro r hr
    rw [htab, Table.mem_insert]
    exact .inl (List.mem_map_of_mem hr)
  refine ⟨horder, ?_, ?_, ?_, ?_, ?_⟩
  · intro r hr
    rw [htab, Table.mem_insert, revokeWhere_rows] at hr
    rcases hr with hr | rfl
    · obtain ⟨r₀, hr₀, rfl⟩ := List.mem_map.mp hr
      obtain ⟨t, a, ht⟩ := h.tracks r₀ hr₀
      have hne : ev.entropy.token ≠ t :=
        fun he => hfresh (he ▸ h.tokens _ _ _ _ ht.issued)
      refine ⟨t, a, ht.revoked hle ?_ ?_ ?_⟩
      · refine List.forall_mem_cons.mpr ⟨?_, fun f hf => hfs f hf _ _ _ _⟩
        simp [hne]
      · intro hn hp
        obtain ⟨hF, hends⟩ := hkeep r₀ hr₀ t a ht hn hp
        exact List.forall_mem_cons.mpr ⟨hF.symm, hends⟩
      · intro hn hp
        rcases hdrop r₀ hr₀ t a ht hn hp with hF | hexp
        · exact .inl ⟨_, List.mem_cons_self, hF.symm⟩
        · exact .inr hexp
    · refine ⟨ev.entropy.token, ev.now, ⟨rfl, rfl, ?_, fun _ => ?_, fun _ => .inl rfl⟩⟩
      · exact List.mem_cons_self
      · exact standing_cons.mpr (.inl rfl)
  · intro t F u a hmem
    rcases hold t F u a hmem with ⟨rfl, rfl, rfl, rfl⟩ | hmem
    · have hrow : tokenRow E ev.entropy ev.now user ua ip fam s.db.refreshToken.autoIncrement
          ∈ db'.refreshToken.rows := by
        rw [htab, Table.mem_insert]
        exact .inr rfl
      exact ⟨_, hrow, rfl, rfl⟩
    · obtain ⟨r, hr, hhash, hF⟩ := h.stored t F u a hmem
      exact ⟨revoked i p r, hmap r hr, by simpa using hhash, by simpa using hF⟩
  · intro t F u a F' u' a' hmem hmem'
    rcases hold t F u a hmem with ⟨rfl, rfl, rfl, rfl⟩ | hmem <;>
      rcases hold _ F' u' a' hmem' with ⟨he, rfl, rfl, rfl⟩ | hmem'
    · exact ⟨rfl, rfl, rfl⟩
    · exact absurd (h.tokens _ _ _ _ hmem') hfresh
    · exact absurd (he ▸ h.tokens _ _ _ _ hmem) hfresh
    · exact h.once t F u a F' u' a' hmem hmem'
  · intro t F u a hmem
    simp only [drawnTokens, List.map_append, List.map_cons, List.map_nil, List.mem_append,
      List.mem_singleton]
    rcases hold t F u a hmem with ⟨rfl, -, -, -⟩ | hmem
    · exact .inr rfl
    · exact .inl (h.tokens t F u a hmem)
  · intro r hr
    rw [htab, Table.mem_insert, revokeWhere_rows] at hr
    rcases hr with hr | rfl
    · obtain ⟨r₀, hr₀, rfl⟩ := List.mem_map.mp hr
      simpa using husers _ (h.users r₀ hr₀)
    · exact huser

section Next

variable (hsha : Function.Injective E.sha256) (hzone : E.zone.Fixed)

include hzone in
theorem isExpired_eq (ht : Tracks E now H r t a) (i : Int) :
    isExpired (E.zone.strtotime r.expiresAt) i = decide (a + ttlSeconds E.ttlDays ≤ i) := by
  rw [ht.expires, hzone.strtotime]
  rfl

theorem facts_session (hcall : ∀ token ua ip, ev.call ≠ .refresh token ua ip) (sess : Session) :
    ev.facts H (.ok (.session sess)) =
      [.issued sess.refreshToken ev.entropy.family sess.user.id ev.now] := by
  simp only [AuthEvent.facts]

theorem facts_error (hcall : ∀ token ua ip, ev.call ≠ .refresh token ua ip) (e : Failure) :
    ev.facts H (.error e) = [] := by
  simp only [AuthEvent.facts]

section Effects

variable (h : Synced E evs now s) (hle : now ≤ ev.now)
variable (horder : Orderly (drawnFamilies (evs ++ [ev])) (s.next E ev).db.refreshToken)
variable (husers : KeepsUsers s.db (s.next E ev).db)
variable {token : Bytes} {ua ip : Option Bytes} {row : RefreshTokenRow}

include h hle horder husers

theorem revoke_next (fs : List Fact) (hfacts : ev.facts s.history (ev.exec E s.db).1 = fs)
    (htab : (ev.exec E s.db).2.refreshToken = (revokeWhere i s.db p).2.refreshToken)
    (hfs : ∀ f ∈ fs, ∀ t F u a, f ≠ .issued t F u a)
    (hkeep : ∀ r ∈ s.db.refreshToken.rows, ∀ t a, Tracks E now s.history r t a →
      r.revokedAt = none → p r = false → ∀ f ∈ fs, ¬ f.Ends t r.familyId r.userId)
    (hdrop : ∀ r ∈ s.db.refreshToken.rows, ∀ t a, Tracks E now s.history r t a →
      r.revokedAt = none → p r = true →
        (∃ f ∈ fs, f.Ends t r.familyId r.userId) ∨ a + ttlSeconds E.ttlDays ≤ ev.now) :
    Synced E (evs ++ [ev]) ev.now (s.next E ev) := by
  have := h.revoke fs hle horder husers htab hfs hkeep hdrop
  rwa [Course.next, hfacts]

theorem unchanged_next (fs : List Fact) (hfacts : ev.facts s.history (ev.exec E s.db).1 = fs)
    (htab : (ev.exec E s.db).2.refreshToken = s.db.refreshToken)
    (hfs : ∀ f ∈ fs, ∀ t F u a, f ≠ .issued t F u a)
    (hends : ∀ f ∈ fs, ∀ t F u, ¬ f.Ends t F u) : Synced E (evs ++ [ev]) ev.now (s.next E ev) :=
  h.revoke_next (p := fun _ => false) (i := E.zone.date ev.now) hle horder husers fs hfacts
    (htab.trans revokeWhere_false.symm) hfs (fun _ _ _ _ _ _ _ f hf => hends f hf _ _ _) (by simp)

include hsha in
/-- A revoked token that is presented ends the sessions of its family. -/
theorem reused_next {e : Failure} (hcall : ev.call = .refresh token ua ip)
    (hres : (ev.exec E s.db).1 = .error e) (hrow : findByHash s.db (E.sha256 token) = some row)
    (hrevoked : row.revokedAt ≠ none) (htab : (ev.exec E s.db).2.refreshToken =
      (revokeFamily (E.zone.date ev.now) s.db row.familyId).2.refreshToken) :
    Synced E (evs ++ [ev]) ev.now (s.next E ev) := by
  obtain ⟨hmem, -⟩ := h.token_eq hsha hrow
  refine h.revoke_next (p := (·.familyId = row.familyId)) (i := E.zone.date ev.now) hle horder
    husers [.presented token (some row.familyId)] ?_ htab (by simp) ?_ ?_
  · simp [AuthEvent.facts, hres, hcall, h.familyOf_eq hsha, hrow]
  · intro r hr t a ht hn hp
    simpa [Fact.Ends, eq_comm] using fun _ => of_decide_eq_false hp
  · intro r hr t a ht hn hp
    refine .inl ⟨_, List.mem_singleton_self _, ?_, by simpa [eq_comm] using hp⟩
    rintro rfl
    rw [h.orderly.hashes r hr row hmem (ht.hash.trans (findByHash_mem hrow).2.symm)] at hn
    exact hrevoked hn

include hsha hzone in
/-- An expired token that is presented ends nothing but itself. -/
theorem expired_next {e : Failure} (hcall : ev.call = .refresh token ua ip)
    (hres : (ev.exec E s.db).1 = .error e) (hrow : findByHash s.db (E.sha256 token) = some row)
    (hlive : row.revokedAt = none)
    (hnow : isExpired (E.zone.strtotime row.expiresAt) ev.now = true)
    (htab : (ev.exec E s.db).2.refreshToken =
      (RefreshTokenModel.revoke (E.zone.date ev.now) s.db row.id).2.refreshToken) :
    Synced E (evs ++ [ev]) ev.now (s.next E ev) := by
  obtain ⟨hmem, a, htrow⟩ := h.token_eq hsha hrow
  refine h.revoke_next (p := (·.id = row.id)) (i := E.zone.date ev.now) hle horder husers
    [.presented token (some row.familyId)] ?_ htab (by simp) ?_ ?_
  · simp [AuthEvent.facts, hres, hcall, h.familyOf_eq hsha, hrow]
  · intro r hr t a ht hn hp
    have hF := h.familyId_ne hmem hlive hr hn hp
    simp [Fact.Ends, hF]
  · intro r hr t a ht hn hp
    obtain rfl := h.orderly.ids r hr row hmem (of_decide_eq_true hp)
    exact .inr (by simpa [isExpired_eq hzone ht] using hnow)

include hsha in
/-- A rotation replaces the token that is presented by a new one of its family. -/
theorem rotated_next {user : UserRow} (htoken : ev.entropy.token ∉ drawnTokens evs)
    (hcall : ev.call = .refresh token ua ip)
    (hres : (ev.exec E s.db).1 = .ok (.session (sessionFor E ev.entropy ev.now user)))
    (hrow : findByHash s.db (E.sha256 token) = some row) (hlive : row.revokedAt = none)
    (huser : user.id = row.userId) (htab : (ev.exec E s.db).2.refreshToken =
      (RefreshTokenModel.revoke (E.zone.date ev.now) s.db row.id).2.refreshToken.insert
        (tokenRow E ev.entropy ev.now user ua ip (some row.familyId))) :
    Synced E (evs ++ [ev]) ev.now (s.next E ev) := by
  obtain ⟨hmem, a, htrow⟩ := h.token_eq hsha hrow
  have := h.issue (p := (·.id = row.id)) (i := E.zone.date ev.now)
    [.presented token (some row.familyId)] hle htoken horder husers ?_ htab (by simp) ?_ ?_
  · simpa [Course.next, AuthEvent.facts, hres, hcall, h.familyOf_eq hsha, hrow] using this
  · exact huser ▸ husers _ (h.users row hmem)
  · intro r hr t a ht hn hp
    have hF := h.familyId_ne hmem hlive hr hn hp
    simpa [Fact.Ends, hF] using hF.symm
  · intro r hr t a ht hn hp
    obtain rfl := h.orderly.ids r hr row hmem (of_decide_eq_true hp)
    exact .inl rfl

include hsha in
/-- A logout ends the sessions of the family of its token. -/
theorem loggedOut_next (hcall : ev.call = .logout token) (hres : (ev.exec E s.db).1 = .ok .void)
    (hrow : findByHash s.db (E.sha256 token) = some row) (htab : (ev.exec E s.db).2.refreshToken =
      (revokeFamily (E.zone.date ev.now) s.db row.familyId).2.refreshToken) :
    Synced E (evs ++ [ev]) ev.now (s.next E ev) := by
  refine h.revoke_next (p := (·.familyId = row.familyId)) (i := E.zone.date ev.now) hle horder
    husers [.loggedOut (some row.familyId)] ?_ htab (by simp) ?_ ?_
  · simp [AuthEvent.facts, hres, hcall, h.familyOf_eq hsha, hrow]
  · intro r hr t a ht hn hp
    simpa [Fact.Ends, eq_comm] using of_decide_eq_false hp
  · intro r hr t a ht hn hp
    exact .inl ⟨_, List.mem_singleton_self _, by simpa [Fact.Ends, eq_comm] using hp⟩

include hsha in
/-- A password change ends the other sessions of the account. -/
theorem changed_next {id : ℕ} {dto : ChangePasswordRequest} {token : Option Bytes}
    (hcall : ev.call = .changePassword id dto token) (hres : (ev.exec E s.db).1 = .ok .void)
    (htab : (ev.exec E s.db).2.refreshToken = (revokeWhere (E.zone.date ev.now) s.db
      (revokesOther id (keepFamily E s.db token))).2.refreshToken) :
    Synced E (evs ++ [ev]) ev.now (s.next E ev) := by
  have hkept : keepFamily E s.db token = token.bind (familyOf s.history) := by
    simp only [keepFamily, h.familyOf_eq hsha]
  refine h.revoke_next (p := revokesOther id (keepFamily E s.db token)) (i := E.zone.date ev.now)
    hle horder husers [.passwordChanged id (token.bind (familyOf s.history))] ?_ htab (by simp)
    ?_ ?_
  · simp [AuthEvent.facts, hres, hcall]
  · intro r hr t a ht hn hp
    have := revokesOther_eq_false.mp hp
    rw [hkept] at this
    simpa [Fact.Ends, eq_comm] using this
  · intro r hr t a ht hn hp
    refine .inl ⟨_, List.mem_singleton_self _, ?_⟩
    rw [hkept] at hp
    simp only [revokesOther, Bool.and_eq_true, decide_eq_true_eq] at hp
    exact ⟨hp.1.symm, fun he => hp.2 he.symm⟩

end Effects

include hsha hzone in
/-- Every call keeps the relation. -/
theorem next (h : Synced E evs now s) (hle : now ≤ ev.now)
    (htoken : ev.entropy.token ∉ drawnTokens evs)
    (hfamily : ev.entropy.family ∉ drawnFamilies evs) :
    Synced E (evs ++ [ev]) ev.now (s.next E ev) := by
  obtain ⟨heff, husers⟩ := exec_effect E s.db ev
  have horder : Orderly (drawnFamilies (evs ++ [ev])) (s.next E ev).db.refreshToken := by
    refine (h.orderly.effect heff hfamily).mono ?_
    simp [drawnFamilies, or_comm]
  cases heff with
  | quiet _ hfacts htab =>
    exact h.unchanged_next hle horder husers [] (hfacts _) htab (by simp) (by simp)
  | unknown token ua ip e hcall hres hrow htab =>
    refine h.unchanged_next hle horder husers [.presented token none] ?_ htab (by simp)
      (by simp [Fact.Ends])
    simp [AuthEvent.facts, hres, hcall, h.familyOf_eq hsha, hrow]
  | orphaned token ua ip e row hcall hres hrow huser htab =>
    have := h.users row (findByHash_mem hrow).1
    simp [huser] at this
  | reused token ua ip e row hcall hres hrow hrevoked htab =>
    exact h.reused_next hsha hle horder husers hcall hres hrow hrevoked htab
  | expired token ua ip e row hcall hres hrow hlive hnow htab =>
    exact h.expired_next hsha hzone hle horder husers hcall hres hrow hlive hnow htab
  | clashed token ua ip e row hcall hres hrow hlive hold htab =>
    obtain ⟨r, hr, hhash⟩ := hold
    obtain ⟨t, a, ht⟩ := h.tracks r hr
    exact absurd (hsha (ht.hash.symm.trans hhash) ▸ h.tokens _ _ _ _ ht.issued) htoken
  | rotated token ua ip row user hcall hres hrow hlive hnow huser hnew htab =>
    exact h.rotated_next hsha hle horder husers htoken hcall hres hrow hlive huser htab
  | opened p user ua ip hcall hres hp huser hnew htab =>
    have := h.issue (p := p) (i := E.zone.date ev.now) [] hle htoken horder husers huser
      htab (by simp) ?_ ?_
    · simpa [Course.next, hres, facts_session hcall] using this
    · intro r hr t a ht hn hp
      refine ⟨fun hF => hfamily ?_, by simp⟩
      rw [← show r.familyId = ev.entropy.family from hF]
      exact h.orderly.drawn r hr
    · intro r hr t a ht hn hpr
      exact .inr (hzone.date_lt.mp (ht.expires ▸ hp r hpr)).le
  | unopened p e hcall hres hp htab =>
    refine h.revoke_next (p := p) (i := E.zone.date ev.now) hle horder husers [] ?_ htab (by simp)
      (by simp) ?_
    · rw [hres]
      exact facts_error hcall e
    · intro r hr t a ht hn hpr
      exact .inr (hzone.date_lt.mp (ht.expires ▸ hp r hpr)).le
  | loggedOut token row hcall hres hrow htab =>
    exact h.loggedOut_next hsha hle horder husers hcall hres hrow htab
  | loggedOutUnknown token hcall hres hrow htab =>
    refine h.unchanged_next hle horder husers [.loggedOut none] ?_ htab (by simp)
      (by simp [Fact.Ends])
    simp [AuthEvent.facts, hres, hcall, h.familyOf_eq hsha, hrow]
  | changed id dto token hcall hres htab =>
    exact h.changed_next hsha hle horder husers hcall hres htab

end Next

theorem empty {db₀ : AuthDb} (h₀ : db₀.refreshToken.rows = []) : Synced E [] now ⟨db₀, []⟩ where
  orderly := .empty h₀
  tracks := by simp [h₀]
  stored := by simp
  once := by simp
  tokens := by simp
  users := by simp [h₀]

theorem mono (h : Synced E evs now s) (hle : now ≤ now') : Synced E evs now' s :=
  { h with
    tracks := fun r hr => by
      obtain ⟨t, a, ht⟩ := h.tracks r hr
      exact ⟨t, a, { ht with unrevoked := fun hs => (ht.unrevoked hs).imp_right hle.trans' }⟩ }

end Synced

/-! ## Runs -/

variable {db₀ : AuthDb}

/-- After the calls of a run, the rows agree with the history. -/
theorem synced_course (hsha : Function.Injective E.sha256) (hzone : E.zone.Fixed)
    (h₀ : db₀.refreshToken.rows = []) (hfresh : Fresh evs) (hclock : Clocked evs)
    (hnow : ∀ ev ∈ evs, ev.now ≤ now) : Synced E evs now (course E db₀ evs) := by
  induction evs using List.reverseRecOn generalizing now with
  | nil => exact .empty h₀
  | append_singleton evs ev ih =>
    obtain ⟨hfresh, htoken, hfamily⟩ := hfresh.of_concat
    obtain ⟨hclock, hle⟩ := hclock.of_concat
    rw [course_concat]
    exact ((ih hfresh hclock hle).next hsha hzone le_rfl htoken hfamily).mono
      (hnow ev (by simp))

end Standing

end SlimStarter
