import SlimStarter.Auth.Race

/-!
# Rotation under interleaving

`refresh` ignores how many rows its revoking `UPDATE` changed. While every such `UPDATE` finds its
row unrevoked (`RotatesLive`), `Single` holds: a family has one unrevoked row or one call about to
add it, and a row is rotated by one call. Then a token is exchanged for one session at most
(`refresh_exchanged_once`); with two overlapping calls it is exchanged for two
(`refresh_exchanged_twice`).
-/

namespace SlimStarter

open AuthService RefreshTokenModel

/-- Where a refresh stands at the revocation of the row it read, that row is still unrevoked. -/
def AuthPool.RotatesLive (E : AuthEnv) (s : AuthPool) (a : AuthAct) : Prop :=
  ∀ (i : ℕ) (p : AuthProc) row user ua ip, a = .step i → s.procs[i]? = some p →
    p.rest = .session <$> rotateAs E p.call.2 row user ua ip →
    ∃ r ∈ s.db.refreshToken.rows, r.id = row.id ∧ r.revokedAt = none

/-- The session a call has returned. -/
def AuthProc.returned (p : AuthProc) : Option Session :=
  match p.rest with
  | .ret (.session s) => some s
  | _ => none

/-- The token a refresh presents. -/
def AuthCall.presented : AuthCall → Option Bytes
  | refresh token _ _ => some token
  | _ => none

/-- Call `i` has exchanged the token for a session. -/
def AuthPool.Exchanged (s : AuthPool) (token : Bytes) (i : ℕ) : Prop :=
  ∃ p ∈ s.procs[i]?, p.call.1.presented = some token ∧ (AuthProc.returned p).isSome

instance (s : AuthPool) (token : Bytes) (i : ℕ) : Decidable (s.Exchanged token i) := by
  unfold AuthPool.Exchanged
  infer_instance

/-- Two unrevoked rows of one family are the same row. -/
def AuthPool.OneUnrevoked (s : AuthPool) : Prop :=
  ∀ r ∈ s.db.refreshToken.rows, ∀ r' ∈ s.db.refreshToken.rows,
    r.familyId = r'.familyId → r.revokedAt = none → r'.revokedAt = none → r = r'

instance (s : AuthPool) : Decidable s.OneUnrevoked := by
  unfold AuthPool.OneUnrevoked
  infer_instance

/-- The row a refresh has rotated. -/
def Phase.rotated : Phase → Option RefreshTokenRow
  | issuing row | issued row => some row
  | _ => none

theorem Phase.row_of_rotated {φ : Phase} {row : RefreshTokenRow} (h : φ.rotated = some row) :
    φ.row = some row := by
  cases φ <;> simp_all [Phase.rotated, Phase.row]

theorem Minor.rotated {db : AuthDb} {φ φ' : Phase} (h : Minor db φ φ') {row : RefreshTokenRow}
    (hrow : φ'.rotated = some row) : φ.rotated = some row := by
  cases h with
  | same => exact hrow
  | stop h => exact absurd (Phase.row_of_rotated hrow) (by simp [h])
  | found | looked => simp [Phase.rotated] at hrow

theorem Minor.issuing {db : AuthDb} {φ : Phase} {row : RefreshTokenRow}
    (h : Minor db φ (.issuing row)) : φ = .issuing row := by
  cases h with
  | same => rfl
  | stop h => simp [Phase.row] at h

/-! ## The invariant -/

structure Single (s : AuthPool) (ph : ℕ → Phase) : Prop where
  unrevoked : s.OneUnrevoked
  issuing : ∀ i row, ph i = .issuing row → ∀ r ∈ s.db.refreshToken.rows,
    r.familyId = row.familyId → r.revokedAt ≠ none
  issuing_one : ∀ i j row row', ph i = .issuing row → ph j = .issuing row' →
    row.familyId = row'.familyId → i = j
  rotated : ∀ i row, (ph i).rotated = some row → ∀ r ∈ s.db.refreshToken.rows,
    r.id = row.id → r.revokedAt ≠ none
  rotated_one : ∀ i j row row', (ph i).rotated = some row → (ph j).rotated = some row' →
    row.id = row'.id → i = j

namespace Single

variable {E : AuthEnv} {s s' : AuthPool} {ph ph' : ℕ → Phase}

theorem idle {db : AuthDb} {now : Int} (h : db.refreshToken.rows = []) :
    Single (AuthPool.idle db now) fun _ => .settled where
  unrevoked := by simp [AuthPool.OneUnrevoked, AuthPool.idle, h]
  issuing := by simp
  issuing_one := by simp
  rotated := by simp [Phase.rotated]
  rotated_one := by simp [Phase.rotated]

theorem quiet (h : Single s ph) {i : LocalTime} {p : RefreshTokenRow → Bool}
    (htab : s'.db.refreshToken = (revokeWhere i s.db p).2.refreshToken)
    (hph : ∀ j, Minor s'.db (ph j) (ph' j)) : Single s' ph' where
  unrevoked := by
    simp only [AuthPool.OneUnrevoked, htab, revokeWhere_rows, List.forall_mem_map, revoked_familyId]
    intro r hr r' hr' hF hn hn'
    rw [h.unrevoked r hr r' hr' hF (revoked_eq_none.mp hn).1 (revoked_eq_none.mp hn').1]
  issuing := by
    simp only [htab, revokeWhere_rows, List.forall_mem_map, revoked_familyId]
    intro j row hj r hr hF hn
    exact h.issuing j row (Minor.issuing (hj ▸ hph j)) r hr hF (revoked_eq_none.mp hn).1
  issuing_one := by
    intro j j' row row' hj hj' hF
    exact h.issuing_one j j' row row' (Minor.issuing (hj ▸ hph j)) (Minor.issuing (hj' ▸ hph j')) hF
  rotated := by
    simp only [htab, revokeWhere_rows, List.forall_mem_map, revoked_id]
    intro j row hj r hr hid hn
    exact h.rotated j row ((hph j).rotated hj) r hr hid (revoked_eq_none.mp hn).1
  rotated_one := by
    intro j j' row row' hj hj' hid
    exact h.rotated_one j j' row row' ((hph j).rotated hj) ((hph j').rotated hj') hid

theorem rotate (h : Single s ph) (ht : Tracked E s ph) {i : ℕ} {row r₀ : RefreshTokenRow}
    {t : LocalTime} (hφ : ph i = .rotating row) (hr₀ : r₀ ∈ s.db.refreshToken.rows)
    (hid₀ : r₀.id = row.id) (hlive : r₀.revokedAt = none)
    (htab : s'.db.refreshToken = (revoke t s.db row.id).2.refreshToken) :
    Single s' (Function.update ph i (.issuing row)) := by
  -- `r₀` is the one unrevoked row of the family, and no other call has rotated it.
  have hF₀ : r₀.familyId = row.familyId := by
    obtain ⟨r, hr, hid, -, hF, -⟩ := ht.known i row (by rw [hφ]; rfl)
    rwa [ht.keyed.ids r₀ hr₀ r hr (hid₀.trans hid.symm)]
  have hissuing : ∀ {j row'}, Function.update ph i (.issuing row) j = .issuing row' →
      (j = i ∧ row' = row) ∨ (j ≠ i ∧ ph j = .issuing row' ∧ row'.familyId ≠ row.familyId) := by
    intro j row' hj
    rcases eq_or_ne j i with rfl | hji
    · exact .inl ⟨rfl, by simpa [eq_comm] using hj⟩
    · rw [Function.update_of_ne hji] at hj
      refine .inr ⟨hji, hj, fun hF => ?_⟩
      exact h.issuing j row' hj r₀ hr₀ (hF₀.trans hF.symm) hlive
  have hrotated : ∀ {j row'}, (Function.update ph i (.issuing row) j).rotated = some row' →
      (j = i ∧ row' = row) ∨ (j ≠ i ∧ (ph j).rotated = some row' ∧ row'.id ≠ row.id) := by
    intro j row' hj
    rcases eq_or_ne j i with rfl | hji
    · exact .inl ⟨rfl, by simpa [Phase.rotated, eq_comm] using hj⟩
    · rw [Function.update_of_ne hji] at hj
      refine .inr ⟨hji, hj, fun hid => ?_⟩
      exact h.rotated j row' hj r₀ hr₀ (hid₀.trans hid.symm) hlive
  refine ⟨?_, ?_, ?_, ?_, ?_⟩
  · simp only [AuthPool.OneUnrevoked, htab, revoke, revokeWhere_rows, List.forall_mem_map,
      revoked_familyId]
    intro r hr r' hr' hF hn hn'
    rw [h.unrevoked r hr r' hr' hF (revoked_eq_none.mp hn).1 (revoked_eq_none.mp hn').1]
  · simp only [htab, revoke, revokeWhere_rows, List.forall_mem_map, revoked_familyId]
    intro j row' hj r hr hF hn
    obtain ⟨hr', hne⟩ := revoked_eq_none.mp hn
    rcases hissuing hj with ⟨rfl, rfl⟩ | ⟨-, hj, -⟩
    · rw [h.unrevoked r hr r₀ hr₀ (hF.trans hF₀.symm) hr' hlive] at hne
      exact of_decide_eq_false hne hid₀
    · exact h.issuing j row' hj r hr hF hr'
  · intro j j' row' row'' hj hj' hF
    rcases hissuing hj with ⟨rfl, rfl⟩ | ⟨-, hj, hne⟩ <;>
      rcases hissuing hj' with ⟨rfl, rfl⟩ | ⟨-, hj', hne'⟩
    · rfl
    · exact absurd hF.symm hne'
    · exact absurd hF hne
    · exact h.issuing_one j j' row' row'' hj hj' hF
  · simp only [htab, revoke, revokeWhere_rows, List.forall_mem_map, revoked_id]
    intro j row' hj r hr hid hn
    obtain ⟨hr', hne⟩ := revoked_eq_none.mp hn
    rcases hrotated hj with ⟨-, rfl⟩ | ⟨-, hj, -⟩
    · exact of_decide_eq_false hne hid
    · exact h.rotated j row' hj r hr hid hr'
  · intro j j' row' row'' hj hj' hid
    rcases hrotated hj with ⟨rfl, rfl⟩ | ⟨-, hj, hne⟩ <;>
      rcases hrotated hj' with ⟨rfl, rfl⟩ | ⟨-, hj', hne'⟩
    · rfl
    · exact absurd hid.symm hne'
    · exact absurd hid hne
    · exact h.rotated_one j j' row' row'' hj hj' hid

/-- A new unrevoked row in a family that has none, and that no other call is about to add to,
keeps the invariant. -/
theorem insert (h : Single s ph) (ht : Tracked E s ph) {i : ℕ} {F : Bytes} {φ : Phase}
    {new : ℕ → RefreshTokenRow} (htab : s'.db.refreshToken = s.db.refreshToken.insert new)
    (hnew : ∀ n, (new n).id = n ∧ (new n).familyId = F ∧ (new n).revokedAt = none)
    (hdead : ∀ r ∈ s.db.refreshToken.rows, r.familyId = F → r.revokedAt ≠ none)
    (halone : ∀ j row, j ≠ i → ph j = .issuing row → row.familyId ≠ F)
    (hφ : ∀ row, φ ≠ .issuing row)
    (hrot : ∀ row, φ.rotated = some row → (ph i).rotated = some row) :
    Single s' (Function.update ph i φ) := by
  have hissuing : ∀ {j row}, Function.update ph i φ j = .issuing row →
      j ≠ i ∧ ph j = .issuing row := by
    intro j row hj
    rcases eq_or_ne j i with rfl | hji
    · exact absurd (by simpa using hj) (hφ row)
    · exact ⟨hji, by simpa [hji] using hj⟩
  have hrotated : ∀ {j row}, (Function.update ph i φ j).rotated = some row →
      (ph j).rotated = some row := by
    intro j row hj
    rcases eq_or_ne j i with rfl | hji
    · exact hrot row (by simpa using hj)
    · simpa [hji] using hj
  refine ⟨?_, ?_, ?_, ?_, ?_⟩
  · intro r hr r' hr' hF hn hn'
    rw [htab, Table.mem_insert] at hr hr'
    rcases hr with hr | rfl <;> rcases hr' with hr' | rfl
    · exact h.unrevoked r hr r' hr' hF hn hn'
    · exact absurd hn (hdead r hr (hF.trans (hnew _).2.1))
    · exact absurd hn' (hdead r' hr' (hF.symm.trans (hnew _).2.1))
    · rfl
  · intro j row hj r hr hF
    obtain ⟨hji, hj⟩ := hissuing hj
    rw [htab, Table.mem_insert] at hr
    rcases hr with hr | rfl
    · exact h.issuing j row hj r hr hF
    · exact absurd (hF.symm.trans (hnew _).2.1) (halone j row hji hj)
  · intro j j' row row' hj hj' hF
    exact h.issuing_one j j' row row' (hissuing hj).2 (hissuing hj').2 hF
  · intro j row hj r hr hid
    rw [htab, Table.mem_insert] at hr
    rcases hr with hr | rfl
    · exact h.rotated j row (hrotated hj) r hr hid
    · obtain ⟨r', hr', hid', -⟩ := ht.known j row (Phase.row_of_rotated (hrotated hj))
      have := ht.keyed.next r' hr'
      rw [(hnew _).1] at hid
      omega
  · intro j j' row row' hj hj' hid
    exact h.rotated_one j j' row row' (hrotated hj) (hrotated hj') hid

theorem change (h : Single s ph) (ht : Tracked E s ph) {a : AuthAct}
    (hc : Change E s a ph s' ph') (hlive : s.RotatesLive E a) : Single s' ph' := by
  cases hc with
  | quiet p htab hph => exact h.quiet htab hph
  | rotated i row p hact hi hφ hrest htab hph =>
    obtain ⟨user, ua, ip, hrest⟩ := hrest
    obtain ⟨r₀, hr₀, hid₀, hn₀⟩ := hlive i p row user ua ip hact hi hrest
    exact hph ▸ h.rotate ht hφ hr₀ hid₀ hn₀ htab
  | created i row new hφ htab hnew hph =>
    refine hph ▸ h.insert ht htab hnew (h.issuing i row hφ) (fun j row' hji hj hF => ?_) (by simp)
      fun row' hrow => ?_
    · exact hji (h.issuing_one j i row' row hj hφ hF)
    · rw [hφ]
      exact hrow
  | opened i F new hF htab hnew hph =>
    refine hph ▸ h.insert ht htab hnew (fun r hr he => absurd he (hF r hr))
      (fun j row _ hj he => ?_)
      (by simp) (by simp [Phase.rotated])
    obtain ⟨r, hr, -, -, hF', -⟩ := ht.known j row (by rw [hj]; rfl)
    exact hF r hr (hF'.trans he)

end Single

section Runs

variable {E : AuthEnv} {db₀ : AuthDb} {t₀ : Int} {s : AuthPool}

theorem single_steps (h₀ : db₀.refreshToken.rows = [])
    (hrun : Pool.Steps E.exec (AuthPool.start E)
      (fun s a => AuthPool.FreshFamily s a ∧ AuthPool.RotatesLive E s a) (AuthPool.idle db₀ t₀) s) :
    ∃ ph, Tracked E s ph ∧ Single s ph := by
  refine Pool.Steps.inv (I := fun s => ∃ ph, Tracked E s ph ∧ Single s ph) hrun ?_
    ⟨_, .idle h₀, .idle h₀⟩
  rintro s a s' ⟨ph, ht, hs⟩ ⟨hfresh, hlive⟩ ha
  obtain ⟨ph', ht', hc⟩ := ht.step hfresh ha
  exact ⟨ph', ht', hs.change ht hc hlive⟩

/-- A refresh that has returned a session has issued the next row of the row it presented. -/
theorem Stands.returned {p : AuthProc} {φ : Phase} (h : Stands E p.call p.rest φ) {token : Bytes}
    (hcall : p.call.1.presented = some token) (hret : p.returned.isSome) :
    ∃ row, φ = .issued row := by
  obtain ⟨⟨call, R⟩, rest⟩ := p
  obtain ⟨sess, rfl⟩ : ∃ sess, rest = .ret (.session sess) := by
    unfold AuthProc.returned at hret
    split at hret
    · exact ⟨_, ‹_›⟩
    · simp at hret
  generalize hp : (Prog.ret (.session sess) : AuthProg AuthResult) = p at h
  cases h with
  | opening hnot | settled hnot =>
    cases call <;> simp [AuthCall.isRefresh, AuthCall.presented] at hnot hcall
  | issued _ => exact ⟨_, rfl⟩
  | closing hnone =>
    subst hp
    exact absurd hnone (by simp)
  | asking | holding | rotating | issuing => simp at hp

/-- The row that a call has exchanged the token of is in the table. -/
theorem Tracked.issued_of_exchanged {ph : ℕ → Phase} (ht : Tracked E s ph) {token : Bytes} {i : ℕ}
    (h : s.Exchanged token i) : ∃ row, ph i = .issued row ∧ row.tokenHash = E.sha256 token
      ∧ ∃ r ∈ s.db.refreshToken.rows, SameToken r row := by
  obtain ⟨p, hi, hp, hret⟩ := h
  obtain ⟨row, hrow⟩ := (ht.stands i p hi).returned hp hret
  obtain ⟨ua, ip, hcall⟩ : ∃ ua ip, p.call.1 = .refresh token ua ip := by
    cases hc : p.call.1 <;> simp_all [AuthCall.presented]
  exact ⟨row, hrow, ht.presented i p row token ua ip hi (by rw [hrow]; rfl) hcall,
    ht.known i row (by rw [hrow]; rfl)⟩

/-- While every rotation finds its row unrevoked, no two calls exchange one token, and no family
has two unrevoked rows. -/
theorem refresh_exchanged_once (h₀ : db₀.refreshToken.rows = [])
    (hrun : Pool.Steps E.exec (AuthPool.start E)
      (fun s a => AuthPool.FreshFamily s a ∧ AuthPool.RotatesLive E s a) (AuthPool.idle db₀ t₀) s) :
    (∀ token i j, s.Exchanged token i → s.Exchanged token j → i = j) ∧ s.OneUnrevoked := by
  obtain ⟨ph, ht, hs⟩ := single_steps h₀ hrun
  refine ⟨?_, hs.unrevoked⟩
  intro token i j hi hj
  obtain ⟨row, hrow, hhash, r, hr, hid, -, -, hr₁⟩ := ht.issued_of_exchanged hi
  obtain ⟨row', hrow', hhash', r', hr', hid', -, -, hr₁'⟩ := ht.issued_of_exchanged hj
  have hsame : r = r' := ht.keyed.hashes r hr r' hr' (by rw [hr₁, hr₁', hhash, hhash'])
  exact hs.rotated_one i j row row' (by rw [hrow]; rfl) (by rw [hrow']; rfl)
    (by rw [← hid, ← hid', hsame])

end Runs

/-! ## Sample runs -/

/-- Every revocation by id finds its row unrevoked. -/
def AuthPool.RevokesLive (s : AuthPool) : AuthAct → Prop
  | .step i =>
    match s.procs[i]? with
    | some ⟨_, .call (.revoke id) _⟩ =>
      ∃ r ∈ s.db.refreshToken.rows, r.id = id ∧ r.revokedAt = none
    | _ => True
  | _ => True

instance (s : AuthPool) (a : AuthAct) : Decidable (s.RevokesLive a) :=
  match a with
  | .step _ => by
    dsimp only [AuthPool.RevokesLive]
    split <;> infer_instance
  | .spawn _ | .fail .. | .tick _ => inferInstanceAs (Decidable True)

theorem AuthPool.RevokesLive.rotatesLive {E : AuthEnv} {s : AuthPool} {a : AuthAct}
    (h : s.RevokesLive a) : s.RotatesLive E a := by
  rintro i ⟨c, rest⟩ row user ua ip rfl hi hrest
  change rest = AuthResult.session <$> rotateAs E c.2 row user ua ip at hrest
  subst hrest
  simpa [AuthPool.RevokesLive, hi, rotateAs] using h

namespace Sample

/-- Register, then refresh. -/
def inTurn : List AuthAct :=
  .spawn ((register 1 1000).call, entropy 1) :: List.replicate 5 (.step 0) ++
  .spawn ((refresh 1 2 2000).call, entropy 2) :: List.replicate 5 (.step 1)

/-- Register, then let two refreshes of the token read its row before either revokes it. -/
def overlap : List AuthAct :=
  .spawn ((register 1 1000).call, entropy 1) :: List.replicate 5 (.step 0) ++
  [.spawn ((refresh 1 2 2000).call, entropy 2), .spawn ((refresh 1 3 2000).call, entropy 3),
    .step 1, .step 2] ++ List.replicate 4 (.step 1) ++ List.replicate 4 (.step 2)

end Sample

theorem refresh_exchanged_once_sample :
    ∃ s : AuthPool, s.Exchanged (Sample.token 1) 1
      ∧ (∀ token i j, s.Exchanged token i → s.Exchanged token j → i = j) ∧ s.OneUnrevoked := by
  have h : ∃ s ∈ Pool.acts Sample.env.exec (AuthPool.start Sample.env)
      (fun s a => AuthPool.FreshFamily s a ∧ AuthPool.RevokesLive s a) Sample.inTurn
      (AuthPool.idle Sample.db 1000), AuthPool.Exchanged s (Sample.token 1) 1 := by
    decide +kernel
  obtain ⟨s, hs, h⟩ := h
  refine ⟨s, h, refresh_exchanged_once rfl (Pool.Steps.mono ?_ (Pool.steps_of_acts hs))⟩
  exact fun s a hG => ⟨hG.1, AuthPool.RevokesLive.rotatesLive hG.2⟩

/-- Without the condition one token is exchanged for two sessions, and its family has two
unrevoked rows. -/
theorem refresh_exchanged_twice :
    ∃ s : AuthPool, Pool.Steps Sample.env.exec (AuthPool.start Sample.env) AuthPool.FreshFamily
        (AuthPool.idle Sample.db 1000) s
      ∧ s.Exchanged (Sample.token 1) 1 ∧ s.Exchanged (Sample.token 1) 2 ∧ ¬ s.OneUnrevoked := by
  have h : ∃ s ∈ Pool.acts Sample.env.exec (AuthPool.start Sample.env) AuthPool.FreshFamily
      Sample.overlap (AuthPool.idle Sample.db 1000), AuthPool.Exchanged s (Sample.token 1) 1
        ∧ AuthPool.Exchanged s (Sample.token 1) 2 ∧ ¬ AuthPool.OneUnrevoked s := by
    decide +kernel
  obtain ⟨s, hs, h⟩ := h
  exact ⟨s, Pool.steps_of_acts hs, h⟩

end SlimStarter
