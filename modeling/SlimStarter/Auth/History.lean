import SlimStarter.Auth.Spec

/-!
# Sessions and the history of a run

A run is a list of calls, one after the other, each with its instant and its random bytes. The
`history` of a run records, newest first, what the calls and their results say about sessions:
tokens issued, tokens presented to `refresh`, logouts and password changes. It is kept without
looking at the tables.

`Standing` is what the history says of a token that can still be refreshed, but for its expiry: of
a family, at most the token issued last is standing (`Standing.unique`).
-/

namespace SlimStarter

open AuthService RefreshTokenModel

structure AuthEvent where
  call : AuthCall
  now : Int
  entropy : Entropy
deriving DecidableEq, Repr

/-- Execute one call. -/
def AuthEvent.exec (E : AuthEnv) (ev : AuthEvent) (db : AuthDb) :
    Except Failure AuthResult × AuthDb :=
  (ev.call.prog E ev.entropy).run E.exec ev.now db

inductive Fact where
  | issued (token family : Bytes) (user : ℕ) (at_ : Int)
  | presented (token : Bytes) (family : Option Bytes)
  | loggedOut (family : Option Bytes)
  | passwordChanged (user : ℕ) (kept : Option Bytes)
deriving DecidableEq, Repr

/-- The family a token was issued in, if it was issued. -/
def familyOf : List Fact → Bytes → Option Bytes
  | [], _ => none
  | .issued t family _ _ :: H, token => if t = token then some family else familyOf H token
  | _ :: H, token => familyOf H token

/-- What a call adds to the history `H`, given its result. -/
def AuthEvent.facts (ev : AuthEvent) (H : List Fact) : Except Failure AuthResult → List Fact
  | .ok (.session s) =>
    match ev.call with
    | .refresh token _ _ =>
      [.issued s.refreshToken ((familyOf H token).getD ev.entropy.family) s.user.id ev.now,
        .presented token (familyOf H token)]
    | _ => [.issued s.refreshToken ev.entropy.family s.user.id ev.now]
  | .ok _ =>
    match ev.call with
    | .logout token => [.loggedOut (familyOf H token)]
    | .changePassword id _ token => [.passwordChanged id (token.bind (familyOf H))]
    | _ => []
  | .error _ =>
    match ev.call with
    | .refresh token _ _ => [.presented token (familyOf H token)]
    | _ => []

structure Course where
  db : AuthDb
  history : List Fact

def Course.next (E : AuthEnv) (s : Course) (ev : AuthEvent) : Course where
  db := (ev.exec E s.db).2
  history := ev.facts s.history (ev.exec E s.db).1 ++ s.history

/-- The state after the calls `evs`, from the tables `db₀`. -/
def course (E : AuthEnv) (db₀ : AuthDb) (evs : List AuthEvent) : Course :=
  evs.foldl (Course.next E) ⟨db₀, []⟩

theorem course_concat (E : AuthEnv) (db₀ : AuthDb) (evs : List AuthEvent) (ev : AuthEvent) :
    course E db₀ (evs ++ [ev]) = (course E db₀ evs).next E ev := by
  simp [course]

/-- The tokens the calls draw. -/
def drawnTokens (evs : List AuthEvent) : List Bytes := evs.map fun ev => ev.entropy.token

/-- The family ids the calls draw. -/
def drawnFamilies (evs : List AuthEvent) : List Bytes := evs.map fun ev => ev.entropy.family

/-- No two calls draw the same token or the same family id. -/
def Fresh (evs : List AuthEvent) : Prop := (drawnTokens evs).Nodup ∧ (drawnFamilies evs).Nodup

instance (evs : List AuthEvent) : Decidable (Fresh evs) :=
  inferInstanceAs (Decidable ((drawnTokens evs).Nodup ∧ (drawnFamilies evs).Nodup))

theorem Fresh.of_concat {evs : List AuthEvent} {ev : AuthEvent} (h : Fresh (evs ++ [ev])) :
    Fresh evs ∧ ev.entropy.token ∉ drawnTokens evs ∧ ev.entropy.family ∉ drawnFamilies evs := by
  simp only [Fresh, drawnTokens, drawnFamilies, List.map_append, List.map_cons, List.map_nil] at h ⊢
  obtain ⟨ht, hf⟩ := h
  exact ⟨⟨ht.of_append_left, hf.of_append_left⟩,
    fun hmem => List.disjoint_of_nodup_append ht hmem List.mem_cons_self,
    fun hmem => List.disjoint_of_nodup_append hf hmem List.mem_cons_self⟩

/-- The clock is never set back. -/
def Clocked (evs : List AuthEvent) : Prop := evs.Pairwise fun x y => x.now ≤ y.now

instance (evs : List AuthEvent) : Decidable (Clocked evs) :=
  inferInstanceAs (Decidable (evs.Pairwise fun x y => x.now ≤ y.now))

theorem Clocked.of_concat {evs : List AuthEvent} {ev : AuthEvent} (h : Clocked (evs ++ [ev])) :
    Clocked evs ∧ ∀ x ∈ evs, x.now ≤ ev.now := by
  obtain ⟨hevs, -, hle⟩ := List.pairwise_append.mp h
  exact ⟨hevs, fun x hx => hle x hx ev List.mem_cons_self⟩

/-! ## A sample setting -/

namespace Sample

/-- A refresh token: 32 random bytes in hexadecimal. -/
def token (n : UInt8) : Bytes := List.replicate 63 48 ++ [48 + n]

def entropy (n : UInt8) : Entropy where
  token := token n
  family := List.replicate 31 48 ++ [48 + n]
  salt := [48 + n]

/-- SHA-256 on the tokens 1 to 3, and a permutation of all strings. -/
def sha256 : Equiv.Perm Bytes :=
  Equiv.swap (token 1) (ascii "c386d8e8d07342f2e39e189c8e6c57bb205bb373fe4e3a6f69404a8bb767b417") *
  Equiv.swap (token 2) (ascii "68e4d75d23e31bd23f43266f769567b2588d9f3d3010fa7cacae7efd6f5ce0ad") *
  Equiv.swap (token 3) (ascii "ac7edb97166f7d682720aca18fea15cdd5d15242dad38297a48633a806236c4f")

/-- The default settings, on UTC. -/
def env : AuthEnv where
  zone := ⟨0, []⟩
  sqlEq := fun a b => a = b
  sha256 := sha256
  passwordHash := fun salt password => some (salt ++ password)
  passwordVerify := fun password hash => password.isSuffixOf hash
  buildToken := fun claims _ => claims.email
  accessTtlEnd := fun now => some (now + 900)
  ttlDays := 30

def db : AuthDb := ⟨⟨[], 1⟩, ⟨[], 1⟩⟩

def register (n : UInt8) (now : Int) : AuthEvent :=
  ⟨.register ⟨ascii "Ann", ascii "ann@example.com", ascii "secret-1", ascii "secret-1"⟩ none none,
    now, entropy n⟩

def refresh (presented n : UInt8) (now : Int) : AuthEvent :=
  ⟨.refresh (token presented) none none, now, entropy n⟩

end Sample

/-! ## Standing tokens -/

/-- The facts that end the session of a token: a newer token in its family, another token of the
family presented to `refresh` or any to `logout`, and a password change of its account that keeps
another family or none. -/
def Fact.Ends (token family : Bytes) (user : ℕ) : Fact → Prop
  | issued _ family' _ _ => family' = family
  | presented token' family' => token' ≠ token ∧ family' = some family
  | loggedOut family' => family' = some family
  | passwordChanged user' kept => user' = user ∧ kept ≠ some family

/-- The token was issued, and nothing since has ended its session. -/
def Standing (H : List Fact) (token family : Bytes) (user : ℕ) (at_ : Int) : Prop :=
  ∃ after before, H = after ++ .issued token family user at_ :: before
    ∧ ∀ f ∈ after, ¬ f.Ends token family user

section Standing

variable {H : List Fact} {f : Fact} {t t' F : Bytes} {u u' : ℕ} {a a' : Int}

theorem standing_cons : Standing (f :: H) t F u a ↔
    f = .issued t F u a ∨ (Standing H t F u a ∧ ¬ f.Ends t F u) := by
  constructor
  · rintro ⟨_ | ⟨g, after⟩, before, h, hend⟩
    · exact .inl (by simpa using (List.cons.inj h).1)
    · obtain ⟨rfl, rfl⟩ := List.cons.inj h
      exact .inr ⟨⟨after, before, rfl, fun g hg => hend g (List.mem_cons_of_mem _ hg)⟩,
        hend f List.mem_cons_self⟩
  · rintro (rfl | ⟨⟨after, before, rfl, hend⟩, hf⟩)
    · exact ⟨[], H, rfl, by simp⟩
    · exact ⟨f :: after, before, rfl, by simpa using ⟨hf, hend⟩⟩

/-- Newer facts leave a token standing when none of them ends its session. -/
theorem standing_append {fs : List Fact} (hnew : ∀ f ∈ fs, f ≠ .issued t F u a) :
    Standing (fs ++ H) t F u a ↔ Standing H t F u a ∧ ∀ f ∈ fs, ¬ f.Ends t F u := by
  induction fs with
  | nil => simp
  | cons f fs ih =>
    obtain ⟨hf, hfs⟩ := List.forall_mem_cons.mp hnew
    rw [List.cons_append, standing_cons, or_iff_right hf, ih hfs, List.forall_mem_cons]
    tauto

theorem Standing.mem (h : Standing H t F u a) : .issued t F u a ∈ H := by
  obtain ⟨after, before, rfl, -⟩ := h
  simp

/-- At most one token of a family is standing: the one issued last. -/
theorem Standing.unique (h : Standing H t F u a) (h' : Standing H t' F u' a') : t = t' := by
  induction H with
  | nil =>
    obtain ⟨after, before, h, -⟩ := h
    simp at h
  | cons f H ih =>
    rcases standing_cons.mp h with rfl | ⟨hs, hf⟩ <;>
      rcases standing_cons.mp h' with he | ⟨hs', hf'⟩
    · simp only [Fact.issued.injEq] at he
      exact he.1
    · simp [Fact.Ends] at hf'
    · rw [he] at hf
      simp [Fact.Ends] at hf
    · exact ih hs hs'

theorem mem_of_familyOf (h : familyOf H t = some F) : ∃ u a, .issued t F u a ∈ H := by
  induction H with
  | nil => simp [familyOf] at h
  | cons f H ih =>
    cases f with
    | issued t' F' u a =>
      simp only [familyOf] at h
      split_ifs at h with ht
      · exact ⟨u, a, by simp_all⟩
      · obtain ⟨u, a, hm⟩ := ih h
        exact ⟨u, a, List.mem_cons_of_mem _ hm⟩
    | presented _ _ | loggedOut _ | passwordChanged _ _ =>
      obtain ⟨u, a, hm⟩ := ih h
      exact ⟨u, a, List.mem_cons_of_mem _ hm⟩

theorem not_mem_of_familyOf (h : familyOf H t = none) : .issued t F u a ∉ H := by
  induction H with
  | nil => simp
  | cons f H ih =>
    cases f with
    | issued t' F' u' a' =>
      simp only [familyOf] at h
      split_ifs at h with ht
      simp only [List.mem_cons, Fact.issued.injEq, not_or]
      exact ⟨fun he => ht he.1.symm, ih h⟩
    | presented _ _ | loggedOut _ | passwordChanged _ _ =>
      simpa using ih h

end Standing

end SlimStarter
