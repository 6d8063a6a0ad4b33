import SlimStarter.Auth.Rotation

/-!
# Revocation under interleaving

`logout`, a refresh that detects reuse, and `changePassword` revoke the families of a session by one
`UPDATE`. It reaches the rows there are: where no refresh holds a row of the family as it executes,
the family stays revoked whatever runs later, and no token of it is accepted any more
(`revocation_final`). A refresh in flight can bring it back (`revocation_undone`).
-/

namespace SlimStarter

open AuthService RefreshTokenModel

/-- The rows that a revoking `UPDATE` of `logout`, `refresh` or `changePassword` selects. -/
def AuthStmt.selects : AuthStmt → RefreshTokenRow → Bool
  | revokeFamily familyId, r => r.familyId = familyId
  | revokeAllForUser userId, r => r.userId = userId
  | revokeAllForUserExceptFamily userId familyId, r => r.userId = userId && r.familyId ≠ familyId
  | _, _ => false

/-- The statement is a revoking `UPDATE` for the family: it selects a row of it. -/
def AuthStmt.RevokesFamily (op : AuthStmt) (db : AuthDb) (F : Bytes) : Prop :=
  ∃ r ∈ db.refreshToken.rows, r.familyId = F ∧ op.selects r = true

instance (op : AuthStmt) (db : AuthDb) (F : Bytes) : Decidable (op.RevokesFamily db F) := by
  unfold AuthStmt.RevokesFamily
  infer_instance

/-- A refresh that found a row of the family live and has not added its own yet. -/
inductive AuthProc.Holds (E : AuthEnv) (F : Bytes) (p : AuthProc) : Prop
  | checked (row ua ip) (hF : row.familyId = F)
      (hrest : p.rest = .session <$> rotate E p.call.2 row ua ip)
  | found (row user ua ip) (hF : row.familyId = F)
      (hrest : p.rest = .session <$> rotateAs E p.call.2 row user ua ip)
  | revoked (u hash e ua ip) (hcall : p.call.1.isRefresh = true)
      (hrest : p.rest.statement? = some (.createToken u F hash e ua ip))

/-- No row of the family is unrevoked. -/
def AuthPool.Revoked (s : AuthPool) (F : Bytes) : Prop :=
  ∀ r ∈ s.db.refreshToken.rows, r.familyId = F → r.revokedAt ≠ none

instance (s : AuthPool) (F : Bytes) : Decidable (s.Revoked F) := by
  unfold AuthPool.Revoked
  infer_instance

/-- The family is revoked, and no call can add to it. -/
structure Dead (F : Bytes) (s : AuthPool) (ph : ℕ → Phase) : Prop where
  revoked : s.Revoked F
  exists_row : ∃ r ∈ s.db.refreshToken.rows, r.familyId = F
  held : ∀ i row, (ph i).held = some row → row.familyId ≠ F

section Revocation

variable {E : AuthEnv} {F : Bytes} {s s' s₁ : AuthPool} {ph ph' : ℕ → Phase} {a : AuthAct}

theorem Stands.holds {p : AuthProc} {φ : Phase} (h : Stands E p.call p.rest φ)
    {row : RefreshTokenRow} (hrow : φ.held = some row) : p.Holds E row.familyId := by
  obtain ⟨c, rest⟩ := p
  cases h with
  | holding =>
    obtain rfl := Option.some.inj hrow
    exact .checked _ _ _ rfl rfl
  | rotating _ =>
    obtain rfl := Option.some.inj hrow
    exact .found _ _ _ _ rfl rfl
  | issuing hop _ _ =>
    obtain rfl := Option.some.inj hrow
    obtain ⟨e, ua, ip, rfl⟩ := hop
    exact .revoked _ _ e ua ip rfl rfl
  | _ => simp [Phase.held] at hrow

/-- A move brings no row to hold but one that is unrevoked after it. -/
theorem Minor.held {db : AuthDb} {φ φ' : Phase} (h : Minor db φ φ') {row : RefreshTokenRow}
    (hrow : φ'.held = some row) :
    φ.held = some row ∨ (row ∈ db.refreshToken.rows ∧ row.revokedAt = none) := by
  cases h with
  | same => exact .inl hrow
  | stop h => cases φ' <;> simp_all [Phase.held, Phase.row]
  | found hmem hlive =>
    obtain rfl := Option.some.inj hrow
    exact .inr ⟨hmem, hlive⟩
  | looked h => exact .inl (h ▸ hrow)

theorem Change.held (hc : Change E s a ph s' ph') {j : ℕ} {row : RefreshTokenRow}
    (hj : (ph' j).held = some row) :
    (ph j).held = some row ∨ (row ∈ s'.db.refreshToken.rows ∧ row.revokedAt = none) := by
  cases hc with
  | quiet p htab hph => exact (hph j).held hj
  | rotated i row' p hact hi hφ hrest htab hph =>
    rcases eq_or_ne j i with rfl | hji
    · exact .inl (by simpa [hph, hφ, Phase.held] using hj)
    · exact .inl (by simpa [hph, hji] using hj)
  | created i _ _ _ _ _ hph | opened i _ _ _ _ _ hph =>
    rcases eq_or_ne j i with rfl | hji
    · simp [hph, Phase.held] at hj
    · exact .inl (by simpa [hph, hji] using hj)

theorem Dead.change (h : Dead F s ph) (hc : Change E s a ph s' ph') : Dead F s' ph' := by
  obtain ⟨r₀, hr₀, hF₀⟩ := h.exists_row
  -- An update keeps the rows of the family and revokes no fewer.
  have hupdate : ∀ {i p}, s'.db.refreshToken = (revokeWhere i s.db p).2.refreshToken →
      s'.Revoked F ∧ ∃ r ∈ s'.db.refreshToken.rows, r.familyId = F := by
    intro i p htab
    simp only [AuthPool.Revoked, htab, revokeWhere_rows, List.forall_mem_map, revoked_familyId]
    refine ⟨fun r hr hF hn => h.revoked r hr hF (revoked_eq_none.mp hn).1,
      RefreshTokenModel.revoked i p r₀, List.mem_map_of_mem hr₀, ?_⟩
    rw [revoked_familyId, hF₀]
  -- An insert in another family leaves this one alone.
  have hinsert : ∀ {new : ℕ → RefreshTokenRow} {F'}, s'.db.refreshToken =
      s.db.refreshToken.insert new → (∀ n, (new n).familyId = F') → F' ≠ F →
      s'.Revoked F ∧ ∃ r ∈ s'.db.refreshToken.rows, r.familyId = F := by
    intro new F' htab hnew hne
    simp only [AuthPool.Revoked, htab, Table.mem_insert]
    refine ⟨?_, r₀, .inl hr₀, hF₀⟩
    rintro r (hr | rfl) hF
    · exact h.revoked r hr hF
    · exact absurd ((hnew _).symm.trans hF) hne
  obtain ⟨hrevoked, hexists⟩ : s'.Revoked F ∧ ∃ r ∈ s'.db.refreshToken.rows, r.familyId = F := by
    cases hc with
    | quiet p htab hph => exact hupdate htab
    | rotated i row p hact hi hφ hrest htab hph => exact hupdate htab
    | created i row new hφ htab hnew hph =>
      exact hinsert htab (fun n => (hnew n).2.1) (h.held i row (by rw [hφ]; rfl))
    | opened i F' new hF htab hnew hph =>
      exact hinsert htab (fun n => (hnew n).2.1) fun he => hF r₀ hr₀ (hF₀.trans he.symm)
  refine ⟨hrevoked, hexists, fun j row hj hF => ?_⟩
  rcases hc.held hj with hj | ⟨hmem, hlive⟩
  · exact h.held j row hj hF
  · exact hrevoked row hmem hF hlive

/-- Once the family is dead, no call comes to rotate a row of it. -/
theorem Dead.rotated (h : Dead F s ph) (hc : Change E s a ph s' ph') {j : ℕ} {row : RefreshTokenRow}
    (hF : row.familyId = F) (hj : (ph' j).rotated = some row) : (ph j).rotated = some row := by
  cases hc with
  | quiet p htab hph => exact (hph j).rotated hj
  | rotated i row' p hact hi hφ hrest htab hph =>
    rcases eq_or_ne j i with rfl | hji
    · obtain rfl : row' = row := by simpa [hph, Phase.rotated] using hj
      exact absurd hF (h.held j row' (by rw [hφ]; rfl))
    · simpa [hph, hji] using hj
  | created i row' new hφ htab hnew hph =>
    rcases eq_or_ne j i with rfl | hji
    · rw [hφ]
      simpa [hph, Phase.rotated] using hj
    · simpa [hph, hji] using hj
  | opened i F' new hne htab hnew hph =>
    rcases eq_or_ne j i with rfl | hji
    · simp [hph, Phase.rotated] at hj
    · simpa [hph, hji] using hj

/-- A call that has rotated a row of a dead family has nothing to add any more. -/
theorem Dead.only_of_rotated (h : Dead F s ph) (ht : Tracked E s ph) {j : ℕ} {row : RefreshTokenRow}
    (hF : row.familyId = F) (hj : (ph j).rotated = some row) :
    ∃ q ∈ s.procs[j]?, Prog.Only (·.creates = false) (fun _ => True) q.rest := by
  have hlt : j < s.procs.length := by
    by_contra hle
    rw [ht.out j (not_lt.mp hle)] at hj
    simp [Phase.rotated] at hj
  have hq : s.procs[j]? = some s.procs[j] := List.getElem?_eq_getElem hlt
  refine ⟨_, hq, ?_⟩
  have hstands := ht.stands j _ hq
  cases hφ : ph j with
  | issuing row' =>
    obtain rfl : row' = row := by simpa [hφ, Phase.rotated] using hj
    exact absurd hF (h.held j row' (by rw [hφ]; rfl))
  | issued row' =>
    rw [hφ] at hstands
    generalize hp : s.procs[j] = p at hstands ⊢
    obtain ⟨c, rest⟩ := p
    cases hstands with
    | issued honly => exact honly
  | _ => simp [hφ, Phase.rotated] at hj

theorem revoked_of_revokesFamily (ht : Tracked E s ph) {op : AuthStmt}
    (hop : op.RevokesFamily s.db F)
    (htab : s₁.db.refreshToken = (E.exec op s.now s.db).2.refreshToken) :
    s₁.Revoked F ∧ ∃ r ∈ s₁.db.refreshToken.rows, r.familyId = F := by
  obtain ⟨r₀, hr₀, hF₀, hsel₀⟩ := hop
  have hexec : (E.exec op s.now s.db).2.refreshToken =
      (revokeWhere (E.zone.date s.now) s.db op.selects).2.refreshToken := by
    cases op <;> first | rfl | simp [AuthStmt.selects] at hsel₀
  have hsel : ∀ r ∈ s.db.refreshToken.rows, r.familyId = F → op.selects r = true := by
    intro r hr hF
    have hu : r.userId = r₀.userId := ht.owner r hr r₀ hr₀ (hF.trans hF₀.symm)
    cases op <;> simp_all [AuthStmt.selects]
  simp only [AuthPool.Revoked, htab, hexec, revokeWhere_rows, List.forall_mem_map, revoked_familyId]
  refine ⟨fun r hr hF hn => ?_, revoked _ _ r₀, List.mem_map_of_mem hr₀, ?_⟩
  · obtain ⟨-, hspared⟩ := revoked_eq_none.mp hn
    simp [hsel r hr hF] at hspared
  · rw [revoked_familyId, hF₀]

/-- Where no refresh holds a row of the family as the `UPDATE` executes, it is dead after. -/
theorem dead_of_step (ht : Tracked E s ph) {i : ℕ} {p : AuthProc} {op : AuthStmt}
    (hi : s.procs[i]? = some p) (hat : p.rest.statement? = some op)
    (hop : op.RevokesFamily s.db F)
    (hidle : ∀ q ∈ s.procs, ¬ AuthProc.Holds E F q)
    (hstep : Pool.act E.exec (AuthPool.start E) s (.step i) = some s₁) :
    ∃ ph₁, Tracked E s₁ ph₁ ∧ Dead F s₁ ph₁ := by
  obtain ⟨c, rest⟩ := p
  obtain ⟨k, rfl⟩ := Prog.statement?_eq_some.mp hat
  have hs₁ :
      some (s.advance i c op (E.exec op s.now s.db).1 (E.exec op s.now s.db).2 k) = some s₁ :=
    (Pool.act_step hi).symm.trans hstep
  have htab : s₁.db.refreshToken = (E.exec op s.now s.db).2.refreshToken := by
    rw [← Option.some.inj hs₁, Pool.advance_db]
  obtain ⟨hrevoked, hexists⟩ := revoked_of_revokesFamily ht hop htab
  obtain ⟨ph₁, ht₁, hc⟩ := ht.step (a := .step i) trivial hstep
  refine ⟨ph₁, ht₁, hrevoked, hexists, fun j row hj hF => ?_⟩
  have hph : ∀ {j row}, (ph j).held = some row → row.familyId ≠ F := by
    rintro j row hj rfl
    cases hq : s.procs[j]? with
    | none =>
      rw [ht.out j (List.getElem?_eq_none_iff.mp hq)] at hj
      simp [Phase.held] at hj
    | some q => exact hidle q (List.mem_of_getElem? hq) ((ht.stands j q hq).holds hj)
  rcases hc.held hj with hj | ⟨hmem, hlive⟩
  · exact hph hj hF
  · exact hrevoked row hmem hF hlive

/-- Where no refresh holds a row of the family as a revoking `UPDATE` for it executes, no later
state has an unrevoked row of the family, and a token of it is exchanged by no call but one that
had added its row by then. -/
theorem revocation_final {db₀ : AuthDb} {t₀ : Int} {s₂ : AuthPool}
    (h₀ : db₀.refreshToken.rows = [])
    (hrun : Pool.Steps E.exec (AuthPool.start E) AuthPool.FreshFamily (AuthPool.idle db₀ t₀) s)
    {i : ℕ} {p : AuthProc} {op : AuthStmt} (hi : s.procs[i]? = some p)
    (hat : p.rest.statement? = some op) (hop : op.RevokesFamily s.db F)
    (hidle : ∀ q ∈ s.procs, ¬ AuthProc.Holds E F q)
    (hstep : Pool.act E.exec (AuthPool.start E) s (.step i) = some s₁)
    (hrun' : Pool.Steps E.exec (AuthPool.start E) AuthPool.FreshFamily s₁ s₂) :
    s₂.Revoked F
      ∧ ∀ token j, s₂.Exchanged token j →
        (∃ r ∈ s₂.db.refreshToken.rows, r.tokenHash = E.sha256 token ∧ r.familyId = F) →
        ∃ q ∈ s₁.procs[j]?, Prog.Only (·.creates = false) (fun _ => True) q.rest := by
  obtain ⟨ph, ht⟩ : ∃ ph, Tracked E s ph := by
    refine Pool.Steps.inv (I := fun s => ∃ ph, Tracked E s ph) hrun ?_ ⟨_, .idle h₀⟩
    rintro s a s' ⟨ph, ht⟩ hG ha
    obtain ⟨ph', ht', -⟩ := ht.step hG ha
    exact ⟨ph', ht'⟩
  obtain ⟨ph₁, ht₁, hdead₁⟩ := dead_of_step ht hi hat hop hidle hstep
  -- The calls that have rotated a row of the family are those that had when it died.
  obtain ⟨ph₂, ht₂, hdead₂, hrotated⟩ : ∃ ph, Tracked E s₂ ph ∧ Dead F s₂ ph ∧
      ∀ j row, row.familyId = F → (ph j).rotated = some row → (ph₁ j).rotated = some row := by
    refine Pool.Steps.inv (I := fun s => ∃ ph, Tracked E s ph ∧ Dead F s ph ∧
      ∀ j row, row.familyId = F → (ph j).rotated = some row → (ph₁ j).rotated = some row) hrun' ?_
      ⟨ph₁, ht₁, hdead₁, fun _ _ _ h => h⟩
    rintro s a s' ⟨ph, ht, hdead, hrotated⟩ hG ha
    obtain ⟨ph', ht', hc⟩ := ht.step hG ha
    exact ⟨ph', ht', hdead.change hc,
      fun j row hF hj => hrotated j row hF (hdead.rotated hc hF hj)⟩
  refine ⟨hdead₂.revoked, fun token j hexchanged hof => ?_⟩
  obtain ⟨row, hφ, hhash, r, hr, -, -, hfamily, hr₁⟩ := ht₂.issued_of_exchanged hexchanged
  obtain ⟨r', hr', hhash', hF⟩ := hof
  obtain rfl : r = r' := ht₂.keyed.hashes r hr r' hr' (by rw [hr₁, hhash, hhash'])
  have hrowF : row.familyId = F := hfamily.symm.trans hF
  exact hdead₁.only_of_rotated ht₁ hrowF (hrotated j row hrowF (by rw [hφ]; rfl))

end Revocation

/-! ## A refresh in flight -/

namespace Sample

def logout (presented : UInt8) (n : UInt8) (now : Int) : AuthEvent :=
  ⟨.logout (token presented), now, entropy n⟩

/-- Register, let a refresh read the row, and let a logout come to its `UPDATE`. -/
def inFlight : List AuthAct :=
  .spawn ((register 1 1000).call, entropy 1) :: List.replicate 5 (.step 0) ++
  [.spawn ((refresh 1 2 2000).call, entropy 2), .step 1,
    .spawn ((logout 1 3 2000).call, entropy 3), .step 2]

/-- Register, and let a logout come to its `UPDATE`. -/
def loggingOut : List AuthAct :=
  .spawn ((register 1 1000).call, entropy 1) :: List.replicate 5 (.step 0) ++
  [.spawn ((logout 1 3 2000).call, entropy 3), .step 1]

end Sample

theorem revocation_final_sample :
    ∃ s₁ s₂ : AuthPool, Pool.Steps Sample.env.exec (AuthPool.start Sample.env) AuthPool.FreshFamily
        s₁ s₂ ∧ s₂.procs.length = 3 ∧ s₂.Revoked (Sample.entropy 1).family
      ∧ ∀ token j, s₂.Exchanged token j →
        (∃ r ∈ s₂.db.refreshToken.rows, r.tokenHash = Sample.env.sha256 token
          ∧ r.familyId = (Sample.entropy 1).family) →
        ∃ q ∈ s₁.procs[j]?, Prog.Only (·.creates = false) (fun _ => True) q.rest := by
  have h : ∃ s ∈ Pool.acts Sample.env.exec (AuthPool.start Sample.env) AuthPool.FreshFamily
      Sample.loggingOut (AuthPool.idle Sample.db 1000),
      ∃ s₁ ∈ Pool.act Sample.env.exec (AuthPool.start Sample.env) s (.step 1),
      ∃ s₂ ∈ Pool.acts Sample.env.exec (AuthPool.start Sample.env) AuthPool.FreshFamily
        [.spawn ((Sample.refresh 1 2 2000).call, Sample.entropy 2), .step 2, .step 2] s₁,
      (s.procs.map (·.rest.statement?)) = [none, some (.revokeFamily (Sample.entropy 1).family)]
      ∧ (AuthStmt.revokeFamily (Sample.entropy 1).family).RevokesFamily s.db
        (Sample.entropy 1).family
      ∧ s₂.procs.length = 3 := by
    decide +kernel
  obtain ⟨s, hs, s₁, hs₁, s₂, hs₂, hat, hop, hlen⟩ := h
  have hidle : ∀ q ∈ s.procs, ¬ AuthProc.Holds Sample.env (Sample.entropy 1).family q := by
    intro q hq hholds
    have hmem := List.mem_map_of_mem (f := fun p : AuthProc => p.rest.statement?) hq
    rw [hat] at hmem
    cases hholds with
    | checked row ua ip hF hrest | found row user ua ip hF hrest =>
      simp [hrest, rotate, rotateAs, Prog.statement?] at hmem
    | revoked u hash e ua ip hcall hrest => simp [hrest] at hmem
  obtain ⟨p, hi, hp⟩ : ∃ p, s.procs[1]? = some p
      ∧ p.rest.statement? = some (.revokeFamily (Sample.entropy 1).family) := by
    have := congrArg (fun l => l[1]?) hat
    simpa [List.getElem?_map] using this
  have hs₂ := Pool.steps_of_acts hs₂
  exact ⟨s₁, s₂, hs₂, hlen,
    revocation_final rfl (Pool.steps_of_acts hs) hi hp hop hidle hs₁ hs₂⟩

/-- A refresh that read its row before the `UPDATE` of a logout brings the family back. -/
theorem revocation_undone :
    ∃ s s₁ s₂ : AuthPool,
      Pool.Steps Sample.env.exec (AuthPool.start Sample.env) AuthPool.FreshFamily
        (AuthPool.idle Sample.db 1000) s
      ∧ ((s.procs[2]?.bind (·.rest.statement?)) = some (.revokeFamily (Sample.entropy 1).family))
      ∧ (AuthStmt.revokeFamily (Sample.entropy 1).family).RevokesFamily s.db
        (Sample.entropy 1).family
      ∧ Pool.act Sample.env.exec (AuthPool.start Sample.env) s (.step 2) = some s₁
      ∧ Pool.Steps Sample.env.exec (AuthPool.start Sample.env) AuthPool.FreshFamily s₁ s₂
      ∧ s₁.Revoked (Sample.entropy 1).family ∧ ¬ s₂.Revoked (Sample.entropy 1).family := by
  have h : ∃ s ∈ Pool.acts Sample.env.exec (AuthPool.start Sample.env) AuthPool.FreshFamily
      Sample.inFlight (AuthPool.idle Sample.db 1000),
      ∃ s₁ ∈ Pool.act Sample.env.exec (AuthPool.start Sample.env) s (.step 2),
      ∃ s₂ ∈ Pool.acts Sample.env.exec (AuthPool.start Sample.env) AuthPool.FreshFamily
        (List.replicate 4 (.step 1)) s₁,
      ((s.procs[2]?.bind (·.rest.statement?)) = some (.revokeFamily (Sample.entropy 1).family))
      ∧ (AuthStmt.revokeFamily (Sample.entropy 1).family).RevokesFamily s.db
        (Sample.entropy 1).family
      ∧ AuthPool.Revoked s₁ (Sample.entropy 1).family
      ∧ ¬ AuthPool.Revoked s₂ (Sample.entropy 1).family := by
    decide +kernel
  obtain ⟨s, hs, s₁, hs₁, s₂, hs₂, hat, hop, hrevoked, hundone⟩ := h
  exact ⟨s, s₁, s₂, Pool.steps_of_acts hs, hat, hop, hs₁, Pool.steps_of_acts hs₂, hrevoked, hundone⟩

end SlimStarter
