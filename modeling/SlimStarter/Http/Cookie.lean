import SlimStarter.Lib.Split
import SlimStarter.Http.Message

/-!
# The refresh cookie on the wire

A client takes a `Set-Cookie` header apart at `; ` and each part at its first `=`, and sends back
the value, which PHP decodes. Percent-encoding leaves no byte that separates, so that the header of
a token comes apart into the cookie and its attributes, and the token comes back
(`cookie_round_trip`).
-/

namespace SlimStarter

namespace RefreshCookie

/-! ## Percent-encoding -/

def hexValue (b : UInt8) : Option ℕ :=
  if isDigit b then some (b.toNat - 48)
  else if 65 ≤ b && b ≤ 70 then some (b.toNat - 55)
  else if 97 ≤ b && b ≤ 102 then some (b.toNat - 87)
  else none

/-- `rawurldecode`, which leaves a `%` that no two hexadecimal digits follow. -/
def rawurldecode : Bytes → Bytes
  | [] => []
  | [b] => [b]
  | [b, b'] => [b, b']
  | b :: h :: l :: s =>
    match (if b = 37 then hexValue h else none), hexValue l with
    | some x, some y => UInt8.ofNat (16 * x + y) :: rawurldecode s
    | _, _ => b :: rawurldecode (h :: l :: s)

/-- What `rawurlencode` writes for a byte. -/
def encodeByte (b : UInt8) : Bytes := rawurlencode [b]

theorem rawurlencode_cons (b : UInt8) (s : Bytes) :
    rawurlencode (b :: s) = encodeByte b ++ rawurlencode s := by
  simp [rawurlencode, encodeByte]

/-- A byte is written as itself, if it is no `%`, or as `%` and its two digits. -/
theorem encodeByte_cases (b : UInt8) : (b ≠ 37 ∧ encodeByte b = [b]) ∨
    ∃ h l, encodeByte b = [37, h, l] ∧ ∃ x y, hexValue h = some x ∧ hexValue l = some y
      ∧ UInt8.ofNat (16 * x + y) = b := by
  have hbyte : ∀ b : UInt8, (b ≠ 37 ∧ encodeByte b = [b]) ∨
      (encodeByte b = [37, hexDigit (b.toNat / 16), hexDigit (b.toNat % 16)]
        ∧ hexValue (hexDigit (b.toNat / 16)) = some (b.toNat / 16)
        ∧ hexValue (hexDigit (b.toNat % 16)) = some (b.toNat % 16)) :=
    forall_byte (by decide +kernel)
  refine (hbyte b).imp_right fun ⟨hb, hx, hy⟩ => ⟨_, _, hb, _, _, hx, hy, ?_⟩
  rw [Nat.div_add_mod, UInt8.ofNat_toNat]

theorem notMem_rawurlencode (s : Bytes) : 59 ∉ rawurlencode s ∧ 61 ∉ rawurlencode s := by
  have hbyte : ∀ b : UInt8, 59 ∉ encodeByte b ∧ 61 ∉ encodeByte b :=
    forall_byte (by decide +kernel)
  induction s with
  | nil => simp [rawurlencode]
  | cons b s ih =>
    rw [rawurlencode_cons]
    simp [hbyte b, ih]

theorem rawurldecode_cons_of_ne {b : UInt8} (h : b ≠ 37) (s : Bytes) :
    rawurldecode (b :: s) = b :: rawurldecode s := by
  match s with
  | [] | [_] => rfl
  | _ :: _ :: _ => rw [rawurldecode, if_neg h]

theorem rawurldecode_rawurlencode (s : Bytes) : rawurldecode (rawurlencode s) = s := by
  induction s with
  | nil => rfl
  | cons b s ih =>
    rw [rawurlencode_cons]
    obtain ⟨hne, hb⟩ | ⟨h, l, hb, x, y, hx, hy, hxy⟩ := encodeByte_cases b
    · rw [hb, List.singleton_append, rawurldecode_cons_of_ne hne, ih]
    · rw [hb]
      simp only [List.cons_append, List.nil_append, rawurldecode, if_true, hx, hy, hxy, ih]

/-! ## Taking a header apart -/

/-- The pairs of a `Set-Cookie` header. -/
def pairs (header : Bytes) : List (Bytes × Bytes) :=
  (Split.split (ascii "; ") header).map (Split.cut 61)

/-- What `toHeader` writes for an attribute. -/
def attributeText (a : Bytes × Bytes) : Bytes := if a.2 = [] then a.1 else a.1 ++ ascii "=" ++ a.2

/-- The name and the attributes have no byte that separates. -/
structure Cookie.Plain (cookie : Cookie) : Prop where
  name : 59 ∉ cookie.name ∧ 61 ∉ cookie.name
  attributes : ∀ a ∈ cookie.attributes, 59 ∉ a.1 ∧ 61 ∉ a.1 ∧ 59 ∉ a.2

theorem pairs_toHeader {cookie : Cookie} (h : cookie.Plain) :
    pairs (toHeader cookie) = (cookie.name, rawurlencode cookie.value) :: cookie.attributes := by
  obtain ⟨⟨hname, hname'⟩, hattributes⟩ := h
  obtain ⟨hvalue, -⟩ := notMem_rawurlencode cookie.value
  have hparts : ∀ part ∈ (cookie.name ++ ascii "=" ++ rawurlencode cookie.value) ::
      cookie.attributes.map attributeText, 59 ∉ part := by
    refine List.forall_mem_cons.mpr ⟨by simp [ascii, hname, hvalue], fun part hpart => ?_⟩
    obtain ⟨a, ha, rfl⟩ := List.mem_map.mp hpart
    obtain ⟨hfirst, -, hsecond⟩ := hattributes a ha
    unfold attributeText
    split_ifs
    · exact hfirst
    · simp [ascii, hfirst, hsecond]
  have hsplit : Split.split (ascii "; ") (toHeader cookie) = _ :=
    @Split.split_intercalate UInt8 _ 59 [32] _ hparts (by simp)
  unfold pairs
  rw [hsplit, List.map_cons, List.map_map]
  refine congrArg₂ _ ?_ ?_
  · simpa [ascii] using Split.cut_append_cons hname' (rawurlencode cookie.value)
  · refine (List.map_congr_left fun a ha => ?_).trans (List.map_id _)
    obtain ⟨-, hfirst, -⟩ := hattributes a ha
    simp only [Function.comp_apply, id_eq]
    split_ifs with hempty
    · rw [Split.cut_of_notMem hfirst, ← hempty]
    · simpa [ascii] using Split.cut_append_cons hfirst a.2

variable {E : AppEnv}

/-- The attributes that depend on the settings are plain. -/
theorem plain_settings : ∀ a ∈ (ascii "SameSite", sameSite E) :: secureAttribute E,
    59 ∉ a.1 ∧ 61 ∉ a.1 ∧ 59 ∉ a.2 := by
  have hsameSite : 59 ∉ sameSite E := by
    simp only [sameSite]
    split_ifs <;> decide
  refine List.forall_mem_cons.mpr ⟨⟨?_, ?_, hsameSite⟩, ?_⟩
  · show 59 ∉ ascii "SameSite"
    decide
  · show 61 ∉ ascii "SameSite"
    decide
  · simp only [secureAttribute]
    split_ifs
    · decide
    · decide

theorem plain_create (token : Bytes) : (create E token).Plain where
  name := by
    show 59 ∉ name ∧ 61 ∉ name
    decide
  attributes := by
    have hage : 59 ∉ intString (ttlSeconds E.auth.ttlDays) :=
      notMem_intString (by decide) (by decide) _
    have hmaxAge : 59 ∉ ascii "Max-Age" ∧ 61 ∉ ascii "Max-Age" := by decide
    simp only [create, List.cons_append, List.nil_append, List.forall_mem_cons]
    exact ⟨by decide, ⟨hmaxAge.1, hmaxAge.2, hage⟩, by decide,
      List.forall_mem_cons.mp plain_settings⟩

theorem fromRequest_eq {request : Request} {token : Bytes}
    (h : request.refreshToken = .string token) :
    fromRequest request = if trim token ≠ [] then some token else none := by
  unfold fromRequest
  rw [h]
  simp

end RefreshCookie

open RefreshCookie in
/-- The header of a token comes apart into the name with a value that decodes to the token and into
the attributes, and a request with the decoded value has the token, unless it is blank. -/
theorem cookie_round_trip (E : AppEnv) (token : Bytes) :
    ∃ value, pairs (toHeader (create E token)) =
        (RefreshCookie.name, value) :: (create E token).attributes
      ∧ rawurldecode value = token
      ∧ ∀ request : Request, request.refreshToken = .string (rawurldecode value) →
        fromRequest request = if trim token ≠ [] then some token else none := by
  refine ⟨rawurlencode token, pairs_toHeader (plain_create token),
    rawurldecode_rawurlencode token, fun request hrequest => ?_⟩
  rw [rawurldecode_rawurlencode] at hrequest
  exact fromRequest_eq hrequest

end SlimStarter
