import Mathlib.Data.List.Infix
import Mathlib.Tactic

/-!
# Lenient reading of UTF-8

`read` takes any bytes for characters: a lead byte takes along all continuation bytes behind it,
whatever their number, in 32 bits; what comes to no character is `replacement`, and a continuation
byte that stands alone is itself. The characters of ASCII are read where their bytes are
(`infix_read_iff`), and a text that is written as `encode` writes its characters is read back
(`read_encoded`), so that it occurs in another such text as its bytes do (`infix_encoded_iff`).
Any other text is taken for what it is not, somewhere (`exists_misread`).
-/

namespace Utf8

abbrev Bytes := List UInt8

def isContinuation (b : UInt8) : Bool := 0x80 ≤ b ∧ b < 0xC0

/-- What a lead byte contributes to its character. -/
def lead (b : UInt8) : ℕ :=
  if b < 0xE0 then b.toNat - 0xC0
  else if b < 0xF0 then b.toNat - 0xE0
  else if b < 0xF8 then b.toNat - 0xF0
  else if b < 0xFC then b.toNat - 0xF8
  else if b = 0xFD then 1 else 0

def push (c : ℕ) (b : UInt8) : ℕ := (c * 64 + b.toNat % 64) % 2 ^ 32

def replacement : ℕ := 0xFFFD

/-- The character of a lead byte with its continuation bytes. -/
def normal (c : ℕ) : ℕ :=
  if c < 0x80 ∨ 0xD800 ≤ c ∧ c < 0xE000 ∨ c = 0xFFFE ∨ c = 0xFFFF then replacement else c

/-- Read on, with a character that is not complete yet. -/
def readFrom : Option ℕ → Bytes → List ℕ
  | pending, [] => (pending.map normal).toList
  | pending, b :: s =>
    if isContinuation b then
      match pending with
      | some c => readFrom (some (push c b)) s
      | none => b.toNat :: readFrom none s
    else if b < 0x80 then (pending.map normal).toList ++ b.toNat :: readFrom none s
    else (pending.map normal).toList ++ readFrom (some (lead b)) s

def read (s : Bytes) : List ℕ := readFrom none s

/-- The continuation byte of the last six bits. -/
def low (n : ℕ) : UInt8 := UInt8.ofNat (0x80 + n % 64)

/-- The bytes of a character as they should be written. -/
def encode (c : ℕ) : Bytes :=
  if c < 0x80 then [UInt8.ofNat c]
  else if c < 0x800 then [UInt8.ofNat (0xC0 + c / 64), low c]
  else if c < 0x10000 then [UInt8.ofNat (0xE0 + c / 4096), low (c / 64), low c]
  else [UInt8.ofNat (0xF0 + c / 262144), low (c / 4096), low (c / 64), low c]

/-- A character that is read as it is written. -/
def Readable (c : ℕ) : Prop :=
  c < 0x110000 ∧ ¬ (0xD800 ≤ c ∧ c < 0xE000) ∧ c ≠ 0xFFFE ∧ c ≠ 0xFFFF

variable {pending : Option ℕ} {b : UInt8} {s t : Bytes} {c : ℕ}

theorem normal_ge (c : ℕ) : 0x80 ≤ normal c := by
  unfold normal replacement
  split_ifs with h
  · decide
  · exact not_lt.mp fun hlt => h (.inl hlt)

theorem not_continuation_of_lt (h : b < 0x80) : isContinuation b = false := by
  simp [isContinuation, UInt8.not_le.mpr h]

theorem continuation_ge (h : isContinuation b = true) : 0x80 ≤ b.toNat := by
  simp only [isContinuation, decide_eq_true_eq] at h
  exact UInt8.le_iff_toNat_le.mp h.1

theorem readFrom_of_lt (pending : Option ℕ) (h : b < 0x80) (s : Bytes) :
    readFrom pending (b :: s) = (pending.map normal).toList ++ b.toNat :: read s := by
  simp [readFrom, read, not_continuation_of_lt h, h]

theorem readFrom_of_lead (pending : Option ℕ) (h : 0xC0 ≤ b) (s : Bytes) :
    readFrom pending (b :: s) =
      (pending.map normal).toList ++ readFrom (some (lead b)) s := by
  have hnot : isContinuation b = false := by simp [isContinuation, UInt8.not_lt.mpr h]
  have hge : ¬ b < 0x80 := UInt8.not_lt.mpr (UInt8.le_trans (b := 0xC0) (by decide) h)
  simp [readFrom, hnot, hge]

/-- Where a character begins, what comes before is read on its own. -/
theorem readFrom_append (h : ∀ b ∈ t.head?, isContinuation b = false) :
    readFrom pending (s ++ t) = readFrom pending s ++ read t := by
  induction s generalizing pending with
  | nil =>
    rcases t with _ | ⟨b, t⟩
    · simp [read, readFrom]
    · have hb := h b rfl
      by_cases hlt : b < 0x80
      · simp [readFrom, read, hb, hlt]
      · simp [readFrom, read, hb, hlt]
  | cons b s ih =>
    rw [List.cons_append]
    simp only [readFrom]
    split_ifs
    · rcases pending with _ | c
      · simp [ih]
      · exact ih
    · simp [ih]
    · simp [ih]

theorem readFrom_some_ne_nil (c : ℕ) (s : Bytes) :
    ∃ d rest, readFrom (some c) s = d :: rest ∧ 0x80 ≤ d := by
  induction s generalizing c with
  | nil => exact ⟨normal c, [], rfl, normal_ge c⟩
  | cons b s ih =>
    by_cases hb : isContinuation b = true
    · simpa [readFrom, hb] using ih (push c b)
    · by_cases hlt : b < 0x80
      · exact ⟨normal c, b.toNat :: read s, by rw [readFrom_of_lt _ hlt]; rfl, normal_ge c⟩
      · refine ⟨normal c, readFrom (some (lead b)) s, ?_, normal_ge c⟩
        simp [readFrom, hb, hlt]

/-- Bytes of ASCII, each replaced by others, are read as their replacements are. -/
theorem readFrom_flatMap {f : UInt8 → Bytes} (hne : ∀ b, b < 0x80 → f b ≠ [])
    (hascii : ∀ b, b < 0x80 → ∀ b' ∈ f b, b' < 0x80) (hself : ∀ b, 0x80 ≤ b → f b = [b]) :
    readFrom pending (s.flatMap f) = (readFrom pending s).flatMap fun c =>
      if c < 0x80 then (f (UInt8.ofNat c)).map UInt8.toNat else [c] := by
  have hplain : ∀ (l rest : Bytes), (∀ b ∈ l, b < 0x80) →
      readFrom none (l ++ rest) = l.map UInt8.toNat ++ read rest := by
    intro l rest hl
    induction l with
    | nil => rfl
    | cons b l ih =>
      rw [List.cons_append, readFrom_of_lt none (hl b List.mem_cons_self)]
      exact congrArg (b.toNat :: ·) (ih fun b hb => hl b (List.mem_cons_of_mem _ hb))
  have hnormal : ∀ pending : Option ℕ, (pending.map normal).toList.flatMap (fun c =>
      if c < 0x80 then (f (UInt8.ofNat c)).map UInt8.toNat else [c]) =
        (pending.map normal).toList := by
    rintro (_ | c)
    · rfl
    · simp [Nat.not_lt.mpr (normal_ge c)]
  induction s generalizing pending with
  | nil => exact (hnormal pending).symm
  | cons b s ih =>
    rw [List.flatMap_cons]
    by_cases hlt : b < 0x80
    · obtain ⟨b', l, hl⟩ := List.exists_cons_of_ne_nil (hne b hlt)
      have hfirst : b' < 0x80 := hascii b hlt b' (hl ▸ List.mem_cons_self)
      have hrest : ∀ b'' ∈ l, b'' < 0x80 :=
        fun b'' hb => hascii b hlt b'' (hl ▸ List.mem_cons_of_mem _ hb)
      have hnat : b.toNat < 0x80 := UInt8.lt_iff_toNat_lt.mp hlt
      rw [hl, List.cons_append, readFrom_of_lt _ hfirst, readFrom_of_lt _ hlt, List.flatMap_append,
        hnormal, read, hplain l _ hrest, List.flatMap_cons, if_pos hnat, UInt8.ofNat_toNat, hl]
      simp only [List.map_cons, List.cons_append, read, ih]
    · rw [hself b (UInt8.not_lt.mp hlt), List.singleton_append]
      have hnat : ¬ b.toNat < 0x80 := fun h => hlt (UInt8.lt_iff_toNat_lt.mpr h)
      by_cases hb : isContinuation b = true
      · rcases pending with _ | c
        · simp [readFrom, hb, hnat, ih]
        · simp [readFrom, hb, ih]
      · simp [readFrom, hb, hlt, hnormal, ih]

section Ascii

variable {k : Bytes}

/-- The characters of ASCII stand where their bytes do. -/
theorem prefix_read_iff (hk : ∀ b ∈ k, b < 0x80) : k.map UInt8.toNat <+: read s ↔ k <+: s := by
  induction k generalizing s with
  | nil => simp
  | cons a k ih =>
    obtain ⟨ha, hk⟩ := List.forall_mem_cons.mp hk
    have hnat : a.toNat < 0x80 := UInt8.lt_iff_toNat_lt.mp ha
    rcases s with _ | ⟨b, s⟩
    · simp [read, readFrom]
    · by_cases hb : isContinuation b = true ∨ b < 0x80
      · have hread : read (b :: s) = b.toNat :: read s := by
          rcases hb with hb | hb
          · simp [read, readFrom, hb]
          · exact readFrom_of_lt none hb s
        rw [hread, List.map_cons, List.cons_prefix_cons, List.cons_prefix_cons, ih hk,
          UInt8.toNat_inj]
      · have hne : a ≠ b := fun h => hb (.inr (h ▸ ha))
        obtain ⟨d, rest, hread, hd⟩ := readFrom_some_ne_nil (lead b) s
        have hlead : read (b :: s) = d :: rest := by
          rw [← hread]
          simp only [not_or] at hb
          simp [read, readFrom, hb]
        rw [hlead, List.map_cons, List.cons_prefix_cons, List.cons_prefix_cons]
        simp only [hne, false_and, iff_false, not_and]
        omega

theorem infix_read_iff (hne : k ≠ []) (hk : ∀ b ∈ k, b < 0x80) :
    k.map UInt8.toNat <:+: readFrom pending s ↔ k <:+: s := by
  obtain ⟨a, k, rfl⟩ := List.exists_cons_of_ne_nil hne
  have ha : a.toNat < 0x80 := UInt8.lt_iff_toNat_lt.mp (hk a List.mem_cons_self)
  have hskip : ∀ c rest, 0x80 ≤ c → ((a :: k).map UInt8.toNat <:+: c :: rest ↔
      (a :: k).map UInt8.toNat <:+: rest) := by
    intro c rest hc
    rw [List.infix_cons_iff, List.map_cons, List.cons_prefix_cons]
    refine or_iff_right fun h => ?_
    omega
  induction s generalizing pending with
  | nil =>
    rcases pending with _ | c
    · simp [readFrom]
    · have hnil := hskip (normal c) [] (normal_ge c)
      simpa [readFrom] using hnil
  | cons b s ih =>
    have hnone : (a :: k).map UInt8.toNat <:+: read (b :: s) ↔ a :: k <:+: b :: s := by
      by_cases hb : isContinuation b = true ∨ b < 0x80
      · have hread : read (b :: s) = b.toNat :: read s := by
          rcases hb with hb | hb
          · simp [read, readFrom, hb]
          · exact readFrom_of_lt none hb s
        rw [List.infix_cons_iff, ← prefix_read_iff hk, hread, List.infix_cons_iff]
        exact or_congr_right (@ih none)
      · have hread : read (b :: s) = readFrom (some (lead b)) s := by
          simp only [not_or] at hb
          simp [read, readFrom, hb]
        have hne : a ≠ b := fun h => hb (.inr (h ▸ hk a List.mem_cons_self))
        rw [hread, List.infix_cons_iff, List.cons_prefix_cons]
        simpa [hne] using @ih (some (lead b))
    rcases pending with _ | c
    · exact hnone
    · by_cases hb : isContinuation b = true
      · have hne : a ≠ b := by
          rintro rfl
          have hge := continuation_ge hb
          omega
        rw [show readFrom (some c) (b :: s) = readFrom (some (push c b)) s by simp [readFrom, hb],
          List.infix_cons_iff, List.cons_prefix_cons]
        simpa [hne] using @ih (some (push c b))
      · have hstart : ∀ b' ∈ (b :: s).head?, isContinuation b' = false := by simpa using hb
        have happend := @readFrom_append (some c) [] (b :: s) hstart
        rw [List.nil_append] at happend
        rw [happend]
        exact (hskip _ _ (normal_ge c)).trans hnone

end Ascii

section Encode

/-- The number of continuation bytes that should follow a first byte. -/
def width (b : UInt8) : ℕ :=
  if b < 0x80 then 0 else if b < 0xE0 then 1 else if b < 0xF0 then 2 else 3

theorem isContinuation_low (n : ℕ) : isContinuation (low n) = true := by
  have hlow : ∀ m < 64, isContinuation (UInt8.ofNat (0x80 + m)) = true := by decide +kernel
  exact hlow _ (Nat.mod_lt n (by decide))

theorem low_mod (n : ℕ) : (low n).toNat % 64 = n % 64 := by
  rw [low, UInt8.toNat_ofNat']
  omega

theorem first_facts : ∀ n < 256, n < 0x80 ∨ 0xC0 ≤ n →
    isContinuation (UInt8.ofNat n) = false ∧ (0xC0 ≤ n → 0xC0 ≤ UInt8.ofNat n)
      ∧ width (UInt8.ofNat n) =
        if n < 0x80 then 0 else if n < 0xE0 then 1 else if n < 0xF0 then 2 else 3 := by
  decide +kernel

theorem lead_first : ∀ n < 0xF8, 0xC0 ≤ n → lead (UInt8.ofNat n) =
    if n < 0xE0 then n - 0xC0 else if n < 0xF0 then n - 0xE0 else n - 0xF0 := by
  decide +kernel

theorem encode_cons (h : c < 0x110000) : ∃ b l, encode c = b :: l ∧ isContinuation b = false
    ∧ (∀ b' ∈ l, isContinuation b' = true) ∧ l.length = width b := by
  unfold encode
  split_ifs with h1 h2 h3
  · obtain ⟨hfirst, -, hwidth⟩ := first_facts c (by omega) (.inl h1)
    refine ⟨_, _, rfl, hfirst, by simp, ?_⟩
    rw [hwidth, if_pos h1]
    rfl
  · obtain ⟨hfirst, -, hwidth⟩ := first_facts (0xC0 + c / 64) (by omega) (.inr (by omega))
    refine ⟨_, _, rfl, hfirst, by simp [isContinuation_low], ?_⟩
    rw [hwidth, if_neg (by omega), if_pos (by omega)]
    rfl
  · obtain ⟨hfirst, -, hwidth⟩ := first_facts (0xE0 + c / 4096) (by omega) (.inr (by omega))
    refine ⟨_, _, rfl, hfirst, by simp [isContinuation_low], ?_⟩
    rw [hwidth, if_neg (by omega), if_neg (by omega), if_pos (by omega)]
    rfl
  · obtain ⟨hfirst, -, hwidth⟩ := first_facts (0xF0 + c / 262144) (by omega) (.inr (by omega))
    refine ⟨_, _, rfl, hfirst, by simp [isContinuation_low], ?_⟩
    rw [hwidth, if_neg (by omega), if_neg (by omega), if_neg (by omega)]
    rfl

/-- A lead byte and the continuation bytes behind it are one character. -/
theorem read_character {l : Bytes} (hb : 0xC0 ≤ b) (hl : ∀ b ∈ l, isContinuation b = true)
    (ht : ∀ b ∈ t.head?, isContinuation b = false) :
    read (b :: (l ++ t)) = normal (l.foldl push (lead b)) :: read t := by
  have hfold : ∀ c, readFrom (some c) l = [normal (l.foldl push c)] := by
    induction l with
    | nil => exact fun c => rfl
    | cons b' l ih =>
      intro c
      rw [List.forall_mem_cons] at hl
      simpa [readFrom, hl.1] using ih hl.2 (push c b')
  show readFrom none (b :: (l ++ t)) = _
  rw [readFrom_of_lead none hb, readFrom_append ht, hfold]
  rfl

theorem read_encode (h : Readable c) : read (encode c) = [c] := by
  obtain ⟨hlt, hsurrogate, hne⟩ := h
  have hnormal : 0x80 ≤ c → normal c = c := by
    intro hge
    rw [normal, if_neg (by omega)]
  have hone : ∀ b l, 0xC0 ≤ b → (∀ b' ∈ l, isContinuation b' = true) →
      read (b :: l) = [normal (l.foldl push (lead b))] := by
    intro b l hb hl
    have hread := read_character (t := []) hb hl (by simp)
    rwa [List.append_nil] at hread
  unfold encode
  split_ifs with h1 h2 h3
  · have hbyte : UInt8.ofNat c < 0x80 := by
      rw [UInt8.lt_iff_toNat_lt, UInt8.toNat_ofNat', Nat.mod_eq_of_lt (by omega)]
      exact h1
    show readFrom none [UInt8.ofNat c] = _
    rw [readFrom_of_lt none hbyte, UInt8.toNat_ofNat', Nat.mod_eq_of_lt (by omega)]
    rfl
  · obtain ⟨-, hfirst, -⟩ := first_facts (0xC0 + c / 64) (by omega) (.inr (by omega))
    rw [hone _ _ (hfirst (by omega)) (by simp [isContinuation_low]),
      lead_first _ (by omega) (by omega), if_pos (by omega)]
    simp only [List.foldl_cons, List.foldl_nil, push, low_mod]
    rw [show ((0xC0 + c / 64 - 0xC0) * 64 + c % 64) % 2 ^ 32 = c by omega, hnormal (by omega)]
  · obtain ⟨-, hfirst, -⟩ := first_facts (0xE0 + c / 4096) (by omega) (.inr (by omega))
    rw [hone _ _ (hfirst (by omega)) (by simp [isContinuation_low]),
      lead_first _ (by omega) (by omega), if_neg (by omega), if_pos (by omega)]
    simp only [List.foldl_cons, List.foldl_nil, push, low_mod]
    rw [show (((0xE0 + c / 4096 - 0xE0) * 64 + c / 64 % 64) % 2 ^ 32 * 64 + c % 64) % 2 ^ 32 = c by
      omega, hnormal (by omega)]
  · obtain ⟨-, hfirst, -⟩ := first_facts (0xF0 + c / 262144) (by omega) (.inr (by omega))
    rw [hone _ _ (hfirst (by omega)) (by simp [isContinuation_low]),
      lead_first _ (by omega) (by omega), if_neg (by omega), if_neg (by omega)]
    simp only [List.foldl_cons, List.foldl_nil, push, low_mod]
    rw [show ((((0xF0 + c / 262144 - 0xF0) * 64 + c / 4096 % 64) % 2 ^ 32 * 64 + c / 64 % 64)
      % 2 ^ 32 * 64 + c % 64) % 2 ^ 32 = c by omega, hnormal (by omega)]

/-- Beyond ASCII, so are all the bytes. -/
theorem encode_ge (h : Readable c) (hc : 0x80 ≤ c) (hb : b ∈ encode c) : 0x80 ≤ b := by
  obtain ⟨b', l, hencode, -, hl, hlength⟩ := encode_cons h.1
  rw [hencode] at hb
  rcases List.mem_cons.mp hb with rfl | hb
  · refine UInt8.not_lt.mp fun hlt => ?_
    have hnil : l = [] := List.eq_nil_of_length_eq_zero (by rw [hlength, width, if_pos hlt])
    have hread := read_encode h
    rw [hencode, hnil, read, readFrom_of_lt none hlt] at hread
    have hc' : b.toNat = c := (List.cons.inj hread).1
    have hnat : b.toNat < 0x80 := UInt8.lt_iff_toNat_lt.mp hlt
    omega
  · exact UInt8.le_iff_toNat_le.mpr (continuation_ge (hl b hb))

variable {cs ds : List ℕ}

theorem head_flatMap_encode (h : ∀ c ∈ cs, Readable c) :
    ∀ b ∈ (cs.flatMap encode).head?, isContinuation b = false := by
  rcases cs with _ | ⟨c, cs⟩
  · simp
  · obtain ⟨b, l, hencode, hb, -, -⟩ := encode_cons (h c List.mem_cons_self).1
    simp [hencode, hb]

/-- What is written as it should be is read back. -/
theorem read_encoded (h : ∀ c ∈ cs, Readable c) : read (cs.flatMap encode) = cs := by
  induction cs with
  | nil => rfl
  | cons c cs ih =>
    obtain ⟨hc, hcs⟩ := List.forall_mem_cons.mp h
    have happend : readFrom none (encode c ++ cs.flatMap encode) =
        readFrom none (encode c) ++ read (cs.flatMap encode) :=
      readFrom_append (head_flatMap_encode hcs)
    show readFrom none (encode c ++ cs.flatMap encode) = _
    rw [happend, ih hcs]
    exact congrArg (· ++ cs) (read_encode hc)

/-- A first byte tells how long its character is, so that no character begins another. -/
theorem encode_append_inj {d : ℕ} {s' : Bytes} (hc : Readable c) (hd : Readable d)
    (h : encode c ++ s = encode d ++ s') : c = d ∧ s = s' := by
  obtain ⟨b, l, hcb, -, -, hl⟩ := encode_cons hc.1
  obtain ⟨b', l', hdb, -, -, hl'⟩ := encode_cons hd.1
  have hb : b = b' := by
    rw [hcb, hdb] at h
    exact (List.cons.inj h).1
  have hlength : (encode c).length = (encode d).length := by
    rw [hcb, hdb, List.length_cons, List.length_cons, hl, hl', hb]
  obtain ⟨hencode, hs⟩ := List.append_inj h hlength
  have hread := congrArg read hencode
  rw [read_encode hc, read_encode hd] at hread
  exact ⟨(List.cons.inj hread).1, hs⟩

theorem prefix_encoded_iff (hc : ∀ c ∈ cs, Readable c) (hd : ∀ d ∈ ds, Readable d) :
    cs.flatMap encode <+: ds.flatMap encode ↔ cs <+: ds := by
  induction cs generalizing ds with
  | nil => simp
  | cons c cs ih =>
    obtain ⟨hc, hcs⟩ := List.forall_mem_cons.mp hc
    constructor
    · rintro ⟨w, hw⟩
      rcases ds with _ | ⟨d, ds⟩
      · obtain ⟨b, l, hencode, -, -, -⟩ := encode_cons hc.1
        simp [hencode] at hw
      · obtain ⟨hd, hds⟩ := List.forall_mem_cons.mp hd
        rw [List.flatMap_cons, List.flatMap_cons, List.append_assoc] at hw
        obtain ⟨rfl, hrest⟩ := encode_append_inj hc hd hw
        exact List.cons_prefix_cons.mpr ⟨rfl, (ih hcs hds).mp ⟨w, hrest⟩⟩
    · rintro ⟨w, rfl⟩
      rw [List.flatMap_append]
      exact List.prefix_append _ _

/-- The bytes of a text occur in another one where its characters do. -/
theorem infix_encoded_iff (hc : ∀ c ∈ cs, Readable c) (hd : ∀ d ∈ ds, Readable d) :
    cs.flatMap encode <:+: ds.flatMap encode ↔ cs <:+: ds := by
  constructor
  · intro h
    rcases cs with _ | ⟨c, cs⟩
    · exact List.nil_infix
    obtain ⟨b, l, hencode, hb, -, -⟩ := encode_cons (hc c List.mem_cons_self).1
    induction ds with
    | nil => simp [hencode] at h
    | cons d ds ih =>
      obtain ⟨hdread, hds⟩ := List.forall_mem_cons.mp hd
      obtain ⟨b', l', hencode', -, hl', -⟩ := encode_cons hdread.1
      -- The first byte of a character stands at no continuation byte.
      have hskip : ∀ l' : Bytes, (∀ b' ∈ l', isContinuation b' = true) →
          (c :: cs).flatMap encode <:+: l' ++ ds.flatMap encode →
          (c :: cs).flatMap encode <:+: ds.flatMap encode := by
        intro l' hl' h
        induction l' with
        | nil => exact h
        | cons b'' l' ih' =>
          obtain ⟨hb'', hl'⟩ := List.forall_mem_cons.mp hl'
          rcases List.infix_cons_iff.mp h with h | h
          · rw [List.flatMap_cons, hencode, List.cons_append, List.cons_prefix_cons] at h
            rw [h.1, hb''] at hb
            cases hb
          · exact ih' hl' h
      have hcons : (d :: ds).flatMap encode = b' :: (l' ++ ds.flatMap encode) := by
        rw [List.flatMap_cons, hencode', List.cons_append]
      rw [hcons] at h
      rcases List.infix_cons_iff.mp h with h | h
      · rw [← hcons, prefix_encoded_iff hc hd] at h
        exact h.isInfix
      · exact (ih hds (hskip l' hl' h)).trans (List.suffix_cons _ _).isInfix
  · rintro ⟨u, w, rfl⟩
    rw [List.flatMap_append, List.flatMap_append]
    exact ⟨_, _, rfl⟩

end Encode

section Misread

variable {k : Bytes}

theorem normal_normal (c : ℕ) : normal (normal c) = normal c := by
  unfold normal replacement
  split_ifs <;> rfl

theorem normal_lt (h : c < 2 ^ 32) : normal c < 2 ^ 32 := by
  unfold normal replacement
  split_ifs
  · decide
  · exact h

/-- Enough continuation bytes for any character. -/
def digits (c : ℕ) : Bytes :=
  [low (c / 2 ^ 30), low (c / 2 ^ 24), low (c / 2 ^ 18), low (c / 2 ^ 12), low (c / 2 ^ 6), low c]

theorem foldl_digits (h : c < 2 ^ 32) : (digits c).foldl push 0 = c := by
  simp only [digits, List.foldl_cons, List.foldl_nil, push, low_mod]
  omega

theorem continuation_of_mem_digits (h : b ∈ digits c) : isContinuation b = true := by
  simp only [digits, List.mem_cons, List.not_mem_nil, or_false] at h
  rcases h with rfl | rfl | rfl | rfl | rfl | rfl <;> exact isContinuation_low _

theorem lt_of_push (c : ℕ) (b : UInt8) : push c b < 2 ^ 32 := Nat.mod_lt _ (by decide)

theorem foldl_push_lt (l : Bytes) (h : c < 2 ^ 32) : l.foldl push c < 2 ^ 32 := by
  induction l generalizing c with
  | nil => exact h
  | cons b l ih => exact ih (lt_of_push c b)

theorem lead_lt (b : UInt8) : lead b < 2 ^ 32 := by
  have hb := b.toNat_lt
  unfold lead
  split_ifs <;> omega

/-- A text that has a character in another spelling, under a lead byte of another kind. -/
theorem misread_lead {p l t : Bytes} (hp : ∀ b ∈ p, b < 0xC0) (hb : 0xC0 ≤ b)
    (hl : ∀ b ∈ l, isContinuation b = true) (ht : ∀ b ∈ t.head?, isContinuation b = false) :
    ∃ p', (∀ b ∈ p', b ∈ p ∨ 0x80 ≤ b) ∧ read (p' ++ t) = read (p ++ b :: (l ++ t))
      ∧ ¬ p ++ b :: (l ++ t) <:+: p' ++ t := by
  obtain ⟨x, hx, hne, hlead⟩ : ∃ x : UInt8, 0xC0 ≤ x ∧ x ≠ b ∧ lead x = 0 := by
    by_cases h : b = 0xFE
    · exact ⟨0xFF, by decide, by rw [h]; decide, by decide⟩
    · exact ⟨0xFE, by decide, Ne.symm h, by decide⟩
  set c := normal (l.foldl push (lead b)) with hc
  have hlt : c < 2 ^ 32 := normal_lt (foldl_push_lt l (lead_lt b))
  have hstart : ∀ (y : UInt8) (rest : Bytes), 0xC0 ≤ y →
      ∀ b ∈ (y :: rest).head?, isContinuation b = false := by
    rintro y rest hy _ ⟨⟩
    simp [isContinuation, UInt8.not_lt.mpr hy]
  refine ⟨p ++ x :: digits c, ?_, ?_, ?_⟩
  · intro b' hb'
    rcases List.mem_append.mp hb' with h | h
    · exact .inl h
    · rcases List.mem_cons.mp h with rfl | h
      · exact .inr (UInt8.le_trans (b := 0xC0) (by decide) hx)
      · exact .inr (UInt8.le_iff_toNat_le.mpr (continuation_ge (continuation_of_mem_digits h)))
  · have hchar : read (x :: (digits c ++ t)) = c :: read t := by
      rw [read_character hx (fun b h => continuation_of_mem_digits h) ht, hlead,
        foldl_digits hlt, hc, normal_normal]
    have hspelled : read (p ++ b :: (l ++ t)) = read p ++ c :: read t := by
      rw [read, readFrom_append (hstart b _ hb), read_character hb hl ht, ← hc]
      rfl
    rw [hspelled, List.append_assoc, List.cons_append, read, readFrom_append (hstart x _ hx), hchar]
    rfl
  · -- Both have as many lead bytes, and the first is another one.
    intro h
    have hplain : ∀ q : Bytes, (∀ b ∈ q, b < 0xC0) → q.filter (0xC0 ≤ ·) = [] := by
      intro q hq
      refine List.filter_eq_nil_iff.mpr fun b hb => ?_
      simpa using UInt8.not_le.mpr (hq b hb)
    have hcont : ∀ q : Bytes, (∀ b ∈ q, isContinuation b = true) → ∀ b ∈ q, b < 0xC0 := by
      intro q hq b hb
      have hb := hq b hb
      simp only [isContinuation, decide_eq_true_eq] at hb
      exact hb.2
    have hfilter := h.filter (0xC0 ≤ ·)
    rw [List.append_assoc, List.cons_append, List.filter_append, List.filter_append,
      List.filter_cons_of_pos (by simpa using hb), List.filter_cons_of_pos (by simpa using hx),
      List.filter_append, List.filter_append, hplain p hp, hplain l (hcont l hl),
      hplain (digits c) (hcont _ fun b h => continuation_of_mem_digits h)] at hfilter
    have heq := hfilter.eq_of_length rfl
    exact hne (List.cons.inj heq).1.symm

/-- Without lead bytes, the bytes are the characters. -/
theorem read_plain {p : Bytes} (hp : ∀ b ∈ p, b < 0xC0) :
    read (p ++ s) = p.map UInt8.toNat ++ read s := by
  induction p with
  | nil => rfl
  | cons b p ih =>
    obtain ⟨hb, hp⟩ := List.forall_mem_cons.mp hp
    have hcons : read (b :: (p ++ s)) = b.toNat :: read (p ++ s) := by
      by_cases hlt : b < 0x80
      · exact readFrom_of_lt none hlt _
      · have hcont : isContinuation b = true := by
          simp [isContinuation, hb, UInt8.not_lt.mp hlt]
        simp [read, readFrom, hcont]
    rw [List.cons_append, hcons, ih hp]
    rfl

theorem read_two : ∀ b : UInt8, isContinuation b = true →
    normal (push (lead 0xC2) b) = b.toNat ∧ normal (push (lead 0xC3) b) = b.toNat + 64 := by
  have hall : ∀ n : Fin 256, isContinuation (UInt8.ofNat n) = true →
      normal (push (lead 0xC2) (UInt8.ofNat n)) = (UInt8.ofNat n).toNat
        ∧ normal (push (lead 0xC3) (UInt8.ofNat n)) = (UInt8.ofNat n).toNat + 64 := by
    decide +kernel
  intro b
  simpa only [UInt8.ofNat_toNat] using hall ⟨b.toNat, b.toNat_lt⟩

/-- A text that has a continuation byte as a character of two bytes, or one in which it belongs to
another character. -/
theorem misread_continuation {p t : Bytes} (hp : ∀ b ∈ p, b < 0xC0) (hb : isContinuation b = true)
    (ht : ∀ b ∈ t.head?, isContinuation b = false) :
    ∃ v, (∀ b' ∈ v, b' ∈ p ++ b :: t ∨ 0x80 ≤ b')
      ∧ ¬ (read (p ++ b :: t) <:+: read v ↔ p ++ b :: t <:+: v) := by
  obtain ⟨hsame, hother⟩ := read_two b hb
  have htwo : ∀ x : UInt8, 0xC0 ≤ x → read (x :: b :: t) = normal (push (lead x) b) :: read t :=
    fun x hx => read_character (l := [b]) hx (by simpa using hb) ht
  have hlast : read (b :: t) = b.toNat :: read t := by
    simp [read, readFrom, hb]
  rcases p.eq_nil_or_concat' with rfl | ⟨q, y, rfl⟩
  · refine ⟨0xC3 :: b :: t, ?_, fun h => ?_⟩
    · intro b' hb'
      rcases List.mem_cons.mp hb' with rfl | hb'
      · exact .inr (by decide)
      · exact .inl hb'
    · have hpart := h.mpr (List.suffix_cons _ _).isInfix
      rw [List.nil_append, hlast, htwo 0xC3 (by decide), hother] at hpart
      have heq := (List.cons.inj (hpart.eq_of_length rfl)).1
      omega
  · have hy : y ≠ 0xC2 := by
      rintro rfl
      exact absurd (hp 0xC2 (by simp)) (by decide)
    refine ⟨q ++ [y] ++ 0xC2 :: b :: t, ?_, fun h => ?_⟩
    · intro b' hb'
      rcases List.mem_append.mp hb' with hb' | hb'
      · exact .inl (List.mem_append_left _ hb')
      · rcases List.mem_cons.mp hb' with rfl | hb'
        · exact .inr (by decide)
        · exact .inl (List.mem_append_right _ hb')
    · have hread : read (q ++ [y] ++ 0xC2 :: b :: t) = read (q ++ [y] ++ b :: t) := by
        rw [read_plain hp, read_plain hp, htwo 0xC2 (by decide), hsame, hlast]
      obtain ⟨u, w, huw⟩ := h.mp (hread ▸ List.infix_rfl)
      have hlength := congrArg List.length huw
      simp only [List.length_append, List.length_cons, List.length_nil] at hlength
      rcases u with _ | ⟨x, u⟩
      · rw [List.nil_append, List.append_assoc, List.append_cancel_left_eq, List.cons_append] at huw
        rw [(List.cons.inj huw).1] at hb
        exact absurd hb (by decide)
      · obtain ⟨rfl, rfl⟩ : u = [] ∧ w = [] := by
          constructor <;> refine List.eq_nil_of_length_eq_zero ?_ <;>
            simp only [List.length_cons] at hlength <;> omega
        have happend : x :: (q ++ [y]) ++ b :: t = q ++ [y] ++ [0xC2] ++ b :: t := by
          simpa using huw
        have hcancel : x :: (q ++ [y]) = q ++ [y] ++ [0xC2] := List.append_cancel_right happend
        have hend := congrArg List.getLast? hcancel
        rw [List.getLast?_concat, ← List.cons_append, List.getLast?_concat] at hend
        exact hy (Option.some.inj hend)

/-- A text with a byte beyond ASCII is taken for what it is not, somewhere. -/
theorem exists_misread (h : ∃ b ∈ k, 0x80 ≤ b) : ∃ v : Bytes, (∀ b ∈ v, b ∈ k ∨ 0x80 ≤ b)
    ∧ ¬ (read k <:+: read v ↔ k <:+: v) := by
  by_cases hlead : ∀ b ∈ k, b < 0xC0
  · -- The last byte beyond ASCII is a continuation byte that stands alone.
    obtain ⟨p, b, t, rfl, hb, ht⟩ : ∃ p b t, k = p ++ b :: t ∧ 0x80 ≤ b ∧ ∀ x ∈ t, x < 0x80 := by
      clear hlead
      induction k with
      | nil => simp at h
      | cons x k ih =>
        by_cases hk : ∃ b ∈ k, 0x80 ≤ b
        · obtain ⟨p, b, t, rfl, hb, ht⟩ := ih hk
          exact ⟨x :: p, b, t, rfl, hb, ht⟩
        · obtain ⟨b, hmem, hb⟩ := h
          rcases List.mem_cons.mp hmem with rfl | hmem
          · exact ⟨[], b, k, rfl, hb, fun y hy => UInt8.not_le.mp fun hge => hk ⟨y, hy, hge⟩⟩
          · exact absurd ⟨b, hmem, hb⟩ hk
    refine misread_continuation (fun x hx => hlead x (List.mem_append_left _ hx)) ?_ ?_
    · simp [isContinuation, hb, hlead b (by simp)]
    · intro x hx
      exact not_continuation_of_lt (ht x (List.mem_of_mem_head? hx))
  · obtain ⟨p, b, q, rfl, hp, hb⟩ : ∃ p b q, k = p ++ b :: q ∧ (∀ x ∈ p, x < 0xC0) ∧ 0xC0 ≤ b := by
      clear h
      induction k with
      | nil => simp at hlead
      | cons x k ih =>
        by_cases hx : x < 0xC0
        · obtain ⟨p, b, q, rfl, hp, hb⟩ := ih fun hk => hlead (List.forall_mem_cons.mpr ⟨hx, hk⟩)
          exact ⟨x :: p, b, q, rfl, List.forall_mem_cons.mpr ⟨hx, hp⟩, hb⟩
        · exact ⟨[], x, k, rfl, by simp, UInt8.not_lt.mp hx⟩
    have hq : q.takeWhile isContinuation ++ q.dropWhile isContinuation = q :=
      List.takeWhile_append_dropWhile
    have hhead : ∀ b ∈ (q.dropWhile isContinuation).head?, isContinuation b = false := by
      intro b hb
      have hnot := List.head?_dropWhile_not isContinuation q
      rw [Option.mem_def.mp hb] at hnot
      simpa using hnot
    obtain ⟨p', hmem, hread, hnot⟩ := misread_lead hp hb
      (fun b hb => List.all_eq_true.mp List.all_takeWhile b hb) hhead
    rw [hq] at hread hnot
    refine ⟨p' ++ q.dropWhile isContinuation, ?_, fun h => hnot (h.mp (hread ▸ List.infix_rfl))⟩
    intro b' hb'
    rcases List.mem_append.mp hb' with hb' | hb'
    · exact (hmem b' hb').imp_left (List.mem_append_left _)
    · have hmem' := (List.dropWhile_suffix _).subset hb'
      exact .inl (List.mem_append_right _ (List.mem_cons_of_mem _ hmem'))

end Misread

end Utf8
