import Mathlib.Algebra.Order.Ring.Nat
import Mathlib.Data.List.Basic

/-!
# JSON

Documents whose numbers are natural, their text without blanks, and a reader of such text. What is written is
read as the same document.
-/

namespace Lib.Json

inductive Doc where
  | null
  | bool (b : Bool)
  | num (n : ℕ)
  | str (t : List Char)
  | arr (items : List Doc)
  | obj (fields : List (List Char × Doc))

/-! ## Writing -/

def escape (c : Char) : List Char :=
  if c = '"' ∨ c = '\\' then ['\\', c]
  else if c.toNat = 8 then ['\\', 'b']
  else if c.toNat = 9 then ['\\', 't']
  else if c.toNat = 10 then ['\\', 'n']
  else if c.toNat = 12 then ['\\', 'f']
  else if c.toNat = 13 then ['\\', 'r']
  else if c.toNat < 0x20 then ['\\', 'u', '0', '0', Nat.digitChar (c.toNat / 16), Nat.digitChar (c.toNat % 16)]
  else [c]

def string (t : List Char) : List Char := '"' :: (t.flatMap escape ++ ['"'])

mutual

def render : Doc → List Char
  | .null => "null".toList
  | .bool true => "true".toList
  | .bool false => "false".toList
  | .num n => Nat.toDigits 10 n
  | .str t => string t
  | .arr [] => ['[', ']']
  | .arr (d :: items) => '[' :: (render d ++ renderItems items)
  | .obj [] => ['{', '}']
  | .obj ((name, d) :: fields) => '{' :: (string name ++ ':' :: (render d ++ renderFields fields))

def renderItems : List Doc → List Char
  | [] => [']']
  | d :: items => ',' :: (render d ++ renderItems items)

def renderFields : List (List Char × Doc) → List Char
  | [] => ['}']
  | (name, d) :: fields => ',' :: (string name ++ ':' :: (render d ++ renderFields fields))

end

/-! ## Reading -/

def strip (s t : List Char) : Option (List Char) := if s <+: t then some (t.drop s.length) else none

def hexVal (c : Char) : ℕ := "0123456789abcdef".toList.idxOf c

/-- Where in a string the reader is: at a character, behind a backslash, or behind so many digits of a number. -/
inductive Mode where
  | plain
  | slash
  | hex (digits value : ℕ)

def unescape (c : Char) : Char :=
  if c = 'b' then Char.ofNat 8 else if c = 't' then Char.ofNat 9 else if c = 'n' then Char.ofNat 10
  else if c = 'f' then Char.ofNat 12 else if c = 'r' then Char.ofNat 13 else c

def scan : Mode → List Char → Option (List Char × List Char)
  | _, [] => none
  | .plain, c :: t =>
    if c = '"' then some ([], t)
    else if c = '\\' then scan .slash t
    else (scan .plain t).map fun p => (c :: p.1, p.2)
  | .slash, c :: t =>
    if c = 'u' then scan (.hex 0 0) t else (scan .plain t).map fun p => (unescape c :: p.1, p.2)
  | .hex digits value, c :: t =>
    if digits = 3 then (scan .plain t).map fun p => (Char.ofNat (value * 16 + hexVal c) :: p.1, p.2)
    else scan (.hex (digits + 1) (value * 16 + hexVal c)) t

def readString (t : List Char) : Option (List Char × List Char) := scan .plain t

def readNumber (t : List Char) : Doc × List Char :=
  (.num (Nat.ofDigitChars 10 (t.takeWhile Char.isDigit) 0), t.dropWhile Char.isDigit)

mutual

/-- A value at the start of a text, and what follows it. -/
def readValue : ℕ → List Char → Option (Doc × List Char)
  | 0, _ => none
  | _ + 1, [] => none
  | fuel + 1, c :: t =>
    if c = 'n' then (strip "ull".toList t).map fun r => (.null, r)
    else if c = 't' then (strip "rue".toList t).map fun r => (.bool true, r)
    else if c = 'f' then (strip "alse".toList t).map fun r => (.bool false, r)
    else if c = '"' then (readString t).map fun p => (.str p.1, p.2)
    else if c = '[' then
      if t.head? = some ']' then some (.arr [], t.tail)
      else do
        let (d, t) ← readValue fuel t
        let (items, t) ← readItems fuel t
        some (.arr (d :: items), t)
    else if c = '{' then
      if t.head? = some '}' then some (.obj [], t.tail)
      else do
        let (name, t) ← (strip ['"'] t).bind readString
        let t ← strip [':'] t
        let (d, t) ← readValue fuel t
        let (fields, t) ← readFields fuel t
        some (.obj ((name, d) :: fields), t)
    else if c.isDigit then some (readNumber (c :: t))
    else none

def readItems : ℕ → List Char → Option (List Doc × List Char)
  | 0, _ => none
  | _ + 1, [] => none
  | fuel + 1, c :: t =>
    if c = ']' then some ([], t)
    else if c = ',' then do
      let (d, t) ← readValue fuel t
      let (items, t) ← readItems fuel t
      some (d :: items, t)
    else none

def readFields : ℕ → List Char → Option (List (List Char × Doc) × List Char)
  | 0, _ => none
  | _ + 1, [] => none
  | fuel + 1, c :: t =>
    if c = '}' then some ([], t)
    else if c = ',' then do
      let (name, t) ← (strip ['"'] t).bind readString
      let t ← strip [':'] t
      let (d, t) ← readValue fuel t
      let (fields, t) ← readFields fuel t
      some ((name, d) :: fields, t)
    else none

end

def read (t : List Char) : Option Doc :=
  match readValue (t.length + 1) t with
  | some (d, []) => some d
  | _ => none

/-! ## What is written is read -/

variable {t r : List Char}

theorem strip_append (s t : List Char) : strip s (s ++ t) = some t := by
  unfold strip
  rw [if_pos (List.prefix_append s t), List.drop_left]

theorem readString_escape (c : Char) (t : List Char) :
    readString (escape c ++ t) = (readString t).map fun p => (c :: p.1, p.2) := by
  have hnum : ∀ n : ℕ, c.toNat = n → Char.ofNat n = c := by
    rintro n rfl
    exact Char.ofNat_toNat c
  unfold escape readString
  split
  · next h => rcases h with rfl | rfl <;> simp [scan, unescape]
  next h =>
  split
  · next hn =>
    obtain rfl := hnum 8 hn
    simp [scan, unescape]
  split
  · next hn =>
    obtain rfl := hnum 9 hn
    simp [scan, unescape]
  split
  · next hn =>
    obtain rfl := hnum 10 hn
    simp [scan, unescape]
  split
  · next hn =>
    obtain rfl := hnum 12 hn
    simp [scan, unescape]
  split
  · next hn =>
    obtain rfl := hnum 13 hn
    simp [scan, unescape]
  split
  · next hn =>
    have hdigit : ∀ d < 16, hexVal (Nat.digitChar d) = d := by decide
    have hzero : hexVal '0' = 0 := by decide
    have hhigh := hdigit (c.toNat / 16) (by omega)
    have hlow := hdigit (c.toNat % 16) (by omega)
    simp [scan, hhigh, hlow, hzero, hnum (c.toNat / 16 * 16 + c.toNat % 16) (by omega)]
  · obtain ⟨hquote, hslash⟩ := not_or.mp h
    simp [scan, hquote, hslash]

theorem readString_string (t r : List Char) : readString (t.flatMap escape ++ '"' :: r) = some (t, r) := by
  induction t with
  | nil => simp [readString, scan]
  | cons c t ih =>
    rw [List.flatMap_cons, List.append_assoc, readString_escape, ih]
    rfl

def Ends (r : List Char) : Prop := ∀ c, r.head? = some c → c.isDigit = false

theorem readNumber_toDigits (n : ℕ) (hr : Ends r) : readNumber (Nat.toDigits 10 n ++ r) = (.num n, r) := by
  have hdigits : ∀ c ∈ Nat.toDigits 10 n, c.isDigit = true :=
    fun c hc => Nat.isDigit_of_mem_toDigits (by decide) (by decide) hc
  have htake : r.takeWhile Char.isDigit = [] ∧ r.dropWhile Char.isDigit = r := by
    cases r with
    | nil => exact ⟨rfl, rfl⟩
    | cons c r =>
      have hc := hr c rfl
      exact ⟨List.takeWhile_cons_of_neg (by simp [hc]), List.dropWhile_cons_of_neg (by simp [hc])⟩
  unfold readNumber
  rw [List.takeWhile_append_of_pos hdigits, List.dropWhile_append_of_pos hdigits, htake.1, htake.2, List.append_nil,
    Nat.ofDigitChars_ten_toDigits]

theorem readField_string (name : List Char) (t : List Char) :
    ((strip ['"'] (string name ++ t)).bind readString) = some (name, t) := by
  unfold string
  rw [List.cons_append, List.append_assoc]
  exact (congrArg (fun o => Option.bind o readString) (strip_append ['"'] _)).trans (readString_string name t)

theorem head_string_ne (name r : List Char) : (string name ++ r).head? ≠ some '}' :=
  fun h => absurd (Option.some.inj h) (by decide)

theorem exists_digit (n : ℕ) : ∃ c digits, Nat.toDigits 10 n = c :: digits ∧ c.isDigit = true := by
  obtain ⟨c, digits, hdigits⟩ := List.exists_cons_of_ne_nil (Nat.toDigits_ne_nil (b := 10) (n := n))
  refine ⟨c, digits, hdigits, Nat.isDigit_of_mem_toDigits (b := 10) (n := n) (by decide) (by decide) ?_⟩
  exact hdigits ▸ List.mem_cons_self

theorem head_render_ne (d : Doc) (r : List Char) : (render d ++ r).head? ≠ some ']' := by
  rcases d with _ | (_ | _) | n | t | (_ | ⟨d, items⟩) | (_ | ⟨⟨name, d⟩, fields⟩)
  case num =>
    obtain ⟨c, digits, hdigits⟩ := exists_digit n
    rw [render, hdigits.1, List.cons_append, List.head?_cons]
    rintro h
    rw [Option.some.inj h] at hdigits
    cases hdigits.2
  all_goals
    rw [render]
    try rw [string]
    exact fun h => absurd (Option.some.inj h) (by decide)

theorem ends_renderItems (items : List Doc) (r : List Char) : Ends (renderItems items ++ r) := by
  intro c hc
  cases items with
  | nil | cons d items =>
    rw [renderItems] at hc
    cases hc
    decide

theorem ends_renderFields (fields : List (List Char × Doc)) (r : List Char) : Ends (renderFields fields ++ r) := by
  intro c hc
  cases fields with
  | nil | cons f fields =>
    rw [renderFields] at hc
    cases hc
    decide

theorem readValue_num {c : Char} (h : c.isDigit = true) (fuel : ℕ) (t : List Char) :
    readValue (fuel + 1) (c :: t) = some (readNumber (c :: t)) := by
  have hne : ∀ d : Char, d.isDigit = false → c ≠ d := by
    rintro d hd rfl
    rw [h] at hd
    cases hd
  rw [readValue, if_neg (hne 'n' (by decide)), if_neg (hne 't' (by decide)), if_neg (hne 'f' (by decide)),
    if_neg (hne '"' (by decide)), if_neg (hne '[' (by decide)), if_neg (hne '{' (by decide)), if_pos h]

theorem exists_fuel {n fuel : ℕ} (h : n + 1 ≤ fuel) : ∃ k, fuel = k + 1 ∧ n ≤ k :=
  ⟨fuel - 1, by omega, by omega⟩

mutual

theorem readValue_render : ∀ (d : Doc) {fuel : ℕ} {r : List Char}, (render d).length ≤ fuel → Ends r →
    readValue fuel (render d ++ r) = some (d, r)
  | .null, fuel, r, hfuel, _ => by
    obtain ⟨fuel, rfl, -⟩ := exists_fuel hfuel
    show readValue (fuel + 1) ('n' :: ("ull".toList ++ r)) = _
    rw [readValue, if_pos rfl, strip_append]
    rfl
  | .bool true, fuel, r, hfuel, _ => by
    obtain ⟨fuel, rfl, -⟩ := exists_fuel hfuel
    show readValue (fuel + 1) ('t' :: ("rue".toList ++ r)) = _
    rw [readValue, if_neg (by decide), if_pos rfl, strip_append]
    rfl
  | .bool false, fuel, r, hfuel, _ => by
    obtain ⟨fuel, rfl, -⟩ := exists_fuel hfuel
    show readValue (fuel + 1) ('f' :: ("alse".toList ++ r)) = _
    rw [readValue, if_neg (by decide), if_neg (by decide), if_pos rfl, strip_append]
    rfl
  | .num n, fuel, r, hfuel, hr => by
    rw [render] at hfuel ⊢
    obtain ⟨c, digits, hdigits, hc⟩ := exists_digit n
    have hread := readNumber_toDigits n hr
    rw [hdigits] at hfuel hread ⊢
    obtain ⟨fuel, rfl, -⟩ := exists_fuel hfuel
    rw [List.cons_append, readValue_num hc, ← List.cons_append, hread]
  | .str t, fuel, r, hfuel, _ => by
    rw [render, string] at hfuel ⊢
    obtain ⟨fuel, rfl, -⟩ := exists_fuel hfuel
    rw [List.cons_append, List.append_assoc, readValue, if_neg (by decide), if_neg (by decide), if_neg (by decide),
      if_pos rfl]
    exact congrArg (Option.map fun p : List Char × List Char => (Doc.str p.1, p.2)) (readString_string t r)
  | .arr [], fuel, r, hfuel, _ => by
    obtain ⟨fuel, rfl, -⟩ := exists_fuel hfuel
    show readValue (fuel + 1) ('[' :: ']' :: r) = _
    rw [readValue, if_neg (by decide), if_neg (by decide), if_neg (by decide), if_neg (by decide), if_pos rfl,
      if_pos List.head?_cons]
    rfl
  | .arr (d :: items), fuel, r, hfuel, hr => by
    rw [render] at hfuel ⊢
    obtain ⟨fuel, rfl, hrest⟩ := exists_fuel hfuel
    rw [List.length_append] at hrest
    have hd := @readValue_render d fuel (renderItems items ++ r) (by omega) (ends_renderItems items r)
    have hitems := @readItems_render items fuel r (by omega)
    rw [List.cons_append, List.append_assoc, readValue, if_neg (by decide), if_neg (by decide), if_neg (by decide),
      if_neg (by decide), if_pos rfl, if_neg (head_render_ne d _), hd]
    simp only [Option.bind_eq_bind, Option.bind_some, hitems]
  | .obj [], fuel, r, hfuel, _ => by
    obtain ⟨fuel, rfl, -⟩ := exists_fuel hfuel
    show readValue (fuel + 1) ('{' :: '}' :: r) = _
    rw [readValue, if_neg (by decide), if_neg (by decide), if_neg (by decide), if_neg (by decide), if_neg (by decide),
      if_pos rfl, if_pos List.head?_cons]
    rfl
  | .obj ((name, d) :: fields), fuel, r, hfuel, hr => by
    rw [render] at hfuel ⊢
    obtain ⟨fuel, rfl, hrest⟩ := exists_fuel hfuel
    rw [List.length_append, List.length_cons, List.length_append] at hrest
    have hd := @readValue_render d fuel (renderFields fields ++ r) (by omega) (ends_renderFields fields r)
    have hfields := @readFields_render fields fuel r (by omega)
    have hcolon : strip [':'] (':' :: (render d ++ (renderFields fields ++ r))) =
        some (render d ++ (renderFields fields ++ r)) := strip_append [':'] _
    rw [List.cons_append, List.append_assoc, List.cons_append, List.append_assoc, readValue, if_neg (by decide),
      if_neg (by decide), if_neg (by decide), if_neg (by decide), if_neg (by decide), if_pos rfl,
      if_neg (head_string_ne name _), readField_string]
    simp only [Option.bind_eq_bind, Option.bind_some, hcolon, hd, hfields]

theorem readItems_render : ∀ (items : List Doc) {fuel : ℕ} {r : List Char}, (renderItems items).length ≤ fuel →
    readItems fuel (renderItems items ++ r) = some (items, r)
  | [], fuel, r, hfuel => by
    obtain ⟨fuel, rfl, -⟩ := exists_fuel hfuel
    show readItems (fuel + 1) (']' :: r) = _
    rw [readItems, if_pos rfl]
  | d :: items, fuel, r, hfuel => by
    rw [renderItems] at hfuel ⊢
    obtain ⟨fuel, rfl, hrest⟩ := exists_fuel hfuel
    rw [List.length_append] at hrest
    have hd := @readValue_render d fuel (renderItems items ++ r) (by omega) (ends_renderItems items r)
    have hitems := @readItems_render items fuel r (by omega)
    rw [List.cons_append, List.append_assoc, readItems, if_neg (by decide), if_pos rfl, hd]
    simp only [Option.bind_eq_bind, Option.bind_some, hitems]

theorem readFields_render : ∀ (fields : List (List Char × Doc)) {fuel : ℕ} {r : List Char},
    (renderFields fields).length ≤ fuel → readFields fuel (renderFields fields ++ r) = some (fields, r)
  | [], fuel, r, hfuel => by
    obtain ⟨fuel, rfl, -⟩ := exists_fuel hfuel
    show readFields (fuel + 1) ('}' :: r) = _
    rw [readFields, if_pos rfl]
  | (name, d) :: fields, fuel, r, hfuel => by
    rw [renderFields] at hfuel ⊢
    obtain ⟨fuel, rfl, hrest⟩ := exists_fuel hfuel
    rw [List.length_append, List.length_cons, List.length_append] at hrest
    have hd := @readValue_render d fuel (renderFields fields ++ r) (by omega) (ends_renderFields fields r)
    have hfields := @readFields_render fields fuel r (by omega)
    have hcolon : strip [':'] (':' :: (render d ++ (renderFields fields ++ r))) =
        some (render d ++ (renderFields fields ++ r)) := strip_append [':'] _
    rw [List.cons_append, List.append_assoc, List.cons_append, List.append_assoc, readFields, if_neg (by decide),
      if_pos rfl, readField_string]
    simp only [Option.bind_eq_bind, Option.bind_some, hcolon, hd, hfields]

end

theorem read_render (d : Doc) : read (render d) = some d := by
  have hends : Ends [] := fun c hc => by cases hc
  have hread := readValue_render d (Nat.le_succ (render d).length) hends
  rw [List.append_nil] at hread
  unfold read
  rw [hread]

end Lib.Json
