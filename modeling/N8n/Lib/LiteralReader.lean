import N8n.Lib.JsonValue

/-!
# Reading literals

A `Dialect` says how the texts of literals look : which code units are spaces, what an expression
begins with, how strings and numbers are read, whether a key may be a name, what becomes of the
properties of an object, and what the functions do of which calls may be written. `evaluate` reads
the text of an expression and gives its value.

`Reads d part text rest` says without a bound on the depth that `text` begins with a value, the
elements of an array or the properties of an object, and goes on with `rest`. The reader gives
what `Reads` says and nothing else (`Reads.readBy`, `reads_of_readBy`).
-/

namespace Lib

/-! ## Strings -/

/-- The value of a hexadecimal digit. -/
def hexValue? (u : UInt16) : Option ℕ :=
  if 48 ≤ u.toNat ∧ u.toNat < 58 then some (u.toNat - 48)
  else if 97 ≤ u.toNat ∧ u.toNat < 103 then some (u.toNat - 87)
  else if 65 ≤ u.toNat ∧ u.toNat < 71 then some (u.toNat - 55)
  else none

/-- The code unit of four hexadecimal digits. -/
def hexUnit? (a b c d : UInt16) : Option UInt16 := do
  let a ← hexValue? a
  let b ← hexValue? b
  let c ← hexValue? c
  let d ← hexValue? d
  return UInt16.ofNat (((a * 16 + b) * 16 + c) * 16 + d)

/-- The escapes of one character that stand for another. -/
def singleEscape (u : UInt16) : UInt16 :=
  if u = charUnit 'n' then charUnit '\n'
  else if u = charUnit 'r' then charUnit '\r'
  else if u = charUnit 't' then charUnit '\t'
  else if u = charUnit 'b' then 8
  else if u = charUnit 'f' then 12
  else if u = charUnit 'v' then 11
  else u

/-- The value of a string from after its opening quote, and what is left. Neither code units that
are `refused` nor escapes of other characters than `escapes` and `u` are read. -/
def readQuoted (refused escapes : UInt16 → Bool) (quote : UInt16) :
    List UInt16 → Option (List UInt16 × List UInt16)
  | [] => none
  | u :: text =>
    if u = quote then some ([], text)
    else if refused u = true then none
    else if u = charUnit '\\' then
      match text with
      | [] => none
      | e :: text =>
        if e = charUnit 'u' then
          match text with
          | a :: b :: c :: d :: text =>
            (hexUnit? a b c d).bind fun u => (readQuoted refused escapes quote text).map fun r => (u :: r.1, r.2)
          | _ => none
        else if escapes e then
          (readQuoted refused escapes quote text).map fun r => (singleEscape e :: r.1, r.2)
        else none
    else (readQuoted refused escapes quote text).map fun r => (u :: r.1, r.2)

section

variable {refused escapes : UInt16 → Bool} {quote : UInt16}

theorem readQuoted_quote (text : List UInt16) :
    readQuoted refused escapes quote (quote :: text) = some ([], text) := by
  unfold readQuoted
  rw [if_pos rfl]

theorem readQuoted_plain {u : UInt16} (hquote : u ≠ quote) (hrefused : refused u = false)
    (hbackslash : u ≠ charUnit '\\') (text : List UInt16) :
    readQuoted refused escapes quote (u :: text) =
      (readQuoted refused escapes quote text).map fun r => (u :: r.1, r.2) := by
  conv_lhs => unfold readQuoted
  rw [if_neg hquote, if_neg (Bool.not_eq_true _ ▸ hrefused), if_neg hbackslash]

theorem readQuoted_escape {e : UInt16} (hquote : quote ≠ charUnit '\\')
    (hrefused : refused (charUnit '\\') = false) (he : escapes e = true) (hu : e ≠ charUnit 'u')
    (text : List UInt16) :
    readQuoted refused escapes quote (charUnit '\\' :: e :: text) =
      (readQuoted refused escapes quote text).map fun r => (singleEscape e :: r.1, r.2) := by
  conv_lhs => unfold readQuoted
  rw [if_neg (Ne.symm hquote), if_neg (Bool.not_eq_true _ ▸ hrefused), if_pos rfl]
  simp only [if_neg hu, if_pos he]

theorem readQuoted_unicode {a b c d u : UInt16} (hquote : quote ≠ charUnit '\\')
    (hrefused : refused (charUnit '\\') = false) (hunit : hexUnit? a b c d = some u)
    (text : List UInt16) :
    readQuoted refused escapes quote
        (charUnit '\\' :: charUnit 'u' :: a :: b :: c :: d :: text) =
      (readQuoted refused escapes quote text).map fun r => (u :: r.1, r.2) := by
  conv_lhs => unfold readQuoted
  rw [if_neg (Ne.symm hquote), if_neg (Bool.not_eq_true _ ▸ hrefused), if_pos rfl]
  simp only [if_true, hunit, Option.bind_some]

theorem readQuoted_suffix {text s rest : List UInt16}
    (h : readQuoted refused escapes quote text = some (s, rest)) : rest <:+ text := by
  fun_induction readQuoted refused escapes quote text generalizing s with
  | case1 | case3 | case4 | case6 | case8 => cases h
  | case2 text =>
    obtain ⟨-, rfl⟩ := Prod.mk.inj (Option.some.inj h)
    exact List.suffix_cons _ _
  | case5 a b c d text _ _ ih =>
    obtain ⟨u, -, h⟩ := Option.bind_eq_some_iff.mp h
    obtain ⟨r, hread, heq⟩ := Option.map_eq_some_iff.mp h
    obtain ⟨-, rfl⟩ := Prod.mk.inj heq
    exact (ih hread).trans (List.suffix_append [charUnit '\\', charUnit 'u', a, b, c, d] text)
  | case7 e text _ _ _ _ ih =>
    obtain ⟨r, hread, heq⟩ := Option.map_eq_some_iff.mp h
    obtain ⟨-, rfl⟩ := Prod.mk.inj heq
    exact (ih hread).trans (List.suffix_append [charUnit '\\', e] text)
  | case9 u text _ _ _ ih =>
    obtain ⟨r, hread, heq⟩ := Option.map_eq_some_iff.mp h
    obtain ⟨-, rfl⟩ := Prod.mk.inj heq
    exact (ih hread).trans (List.suffix_cons u text)

end

/-! ## Dialects -/

/-- What an expression begins with. -/
inductive ExpressionStart where
  | string | array | object | number | name | other
  deriving DecidableEq

structure Dialect where
  isSpace : UInt16 → Bool
  start : UInt16 → ExpressionStart
  /-- The value of a string from after its opening quote, and what is left. -/
  readString : UInt16 → List UInt16 → Option (List UInt16 × List UInt16)
  readNumber : List UInt16 → Option (JsNumber × List UInt16)
  /-- A key may be a name. -/
  nameKeys : Bool
  /-- The own properties of an object, from the properties that are written. -/
  own : List (List UInt16 × JsonValue) → List (List UInt16 × JsonValue)
  call : List UInt16 → JsonValue → Option JsonValue
  readString_suffix : ∀ {quote text s rest}, readString quote text = some (s, rest) → rest <:+ text
  readNumber_suffix : ∀ {text x rest}, readNumber text = some (x, rest) → rest <:+ text

def isNameStart (u : UInt16) : Bool :=
  97 ≤ u.toNat && u.toNat ≤ 122 || 65 ≤ u.toNat && u.toNat ≤ 90 || u = charUnit '_' || u = charUnit '$'

def isNamePart (u : UInt16) : Bool := isNameStart u || (digitOf? u).isSome

theorem digitOf?_of_isNameStart (h : isNameStart u = true) : digitOf? u = none := by
  refine if_neg fun hdigit => ?_
  simp only [isNameStart, Bool.or_eq_true, Bool.and_eq_true, decide_eq_true_eq] at h
  rcases h with ((h | h) | h) | h
  · omega
  · omega
  · subst h
    revert hdigit
    decide
  · subst h
    revert hdigit
    decide

/-- The value of a name that is a literal. -/
def keyword? (name : List UInt16) : Option JsonValue :=
  if name = units "null" then some .null
  else if name = units "true" then some (.boolean true)
  else if name = units "false" then some (.boolean false)
  else none

namespace Dialect

variable (d : Dialect)

def skipSpaces (text : List UInt16) : List UInt16 := text.dropWhile d.isSpace

/-- Skip spaces and one code unit, which has to be there. -/
def expect (u : UInt16) (text : List UInt16) : Option (List UInt16) :=
  match d.skipSpaces text with
  | u' :: rest => if u' = u then some rest else none
  | [] => none

/-- A key of an object : a string, or a name where the dialect has them. -/
def readKey (text : List UInt16) : Option (List UInt16 × List UInt16) :=
  match d.skipSpaces text with
  | [] => none
  | u :: rest =>
    match d.start u with
    | .string => d.readString u rest
    | .name =>
      if d.nameKeys then
        some ((u :: rest).takeWhile isNamePart, (u :: rest).dropWhile isNamePart)
      else none
    | _ => none

mutual

/-- The value of an expression, and what is left. -/
def readValue : ℕ → List UInt16 → Option (JsonValue × List UInt16)
  | 0, _ => none
  | fuel + 1, text =>
    match d.skipSpaces text with
    | [] => none
    | u :: rest =>
      match d.start u with
      | .string => (d.readString u rest).map fun r => (.string r.1, r.2)
      | .number => (d.readNumber (u :: rest)).map fun r => (.number r.1, r.2)
      | .array =>
        match d.expect (charUnit ']') rest with
        | some rest => some (.array [], rest)
        | none => (readElements fuel rest).map fun r => (.array r.1, r.2)
      | .object =>
        match d.expect (charUnit '\x7d') rest with
        | some rest => some (.object [], rest)
        | none => (readProperties fuel rest).map fun r => (.object (d.own r.1), r.2)
      | .name =>
        let name := (u :: rest).takeWhile isNamePart
        let rest := (u :: rest).dropWhile isNamePart
        match keyword? name with
        | some value => some (value, rest)
        | none => do
          let rest ← d.expect (charUnit '(') rest
          let (argument, rest) ← readValue fuel rest
          let rest ← d.expect (charUnit ')') rest
          let value ← d.call name argument
          return (value, rest)
      | .other => none

/-- The elements of an array, up to its end. -/
def readElements : ℕ → List UInt16 → Option (List JsonValue × List UInt16)
  | 0, _ => none
  | fuel + 1, text => do
    let (value, rest) ← readValue fuel text
    match d.expect (charUnit ',') rest with
    | some rest =>
      let (values, rest) ← readElements fuel rest
      return (value :: values, rest)
    | none =>
      let rest ← d.expect (charUnit ']') rest
      return ([value], rest)

/-- The properties of an object, up to its end. -/
def readProperties : ℕ → List UInt16 → Option (List (List UInt16 × JsonValue) × List UInt16)
  | 0, _ => none
  | fuel + 1, text => do
    let (key, rest) ← d.readKey text
    let rest ← d.expect (charUnit ':') rest
    let (value, rest) ← readValue fuel rest
    match d.expect (charUnit ',') rest with
    | some rest =>
      let (properties, rest) ← readProperties fuel rest
      return ((key, value) :: properties, rest)
    | none =>
      let rest ← d.expect (charUnit '\x7d') rest
      return ([(key, value)], rest)

end

/-- The value of the expression that a text is. -/
def evaluate (text : List UInt16) : Option JsonValue :=
  match d.readValue (text.length + 1) text with
  | some (value, rest) => if d.skipSpaces rest = [] then some value else none
  | none => none

end Dialect

/-! ## What is read -/

/-- A value, the elements of an array or the properties of an object. -/
inductive Part where
  | value (v : JsonValue)
  | elements (vs : List JsonValue)
  | properties (ps : List (List UInt16 × JsonValue))

inductive Reads (d : Dialect) : Part → List UInt16 → List UInt16 → Prop
  | string {u : UInt16} {text inner rest s : List UInt16} : d.skipSpaces text = u :: inner →
    d.start u = .string → d.readString u inner = some (s, rest) →
    Reads d (.value (.string s)) text rest
  | number {u : UInt16} {text inner rest : List UInt16} {x : JsNumber} :
    d.skipSpaces text = u :: inner → d.start u = .number →
    d.readNumber (u :: inner) = some (x, rest) → Reads d (.value (.number x)) text rest
  | emptyArray {u : UInt16} {text inner rest : List UInt16} : d.skipSpaces text = u :: inner →
    d.start u = .array → d.expect (charUnit ']') inner = some rest →
    Reads d (.value (.array [])) text rest
  | array {u : UInt16} {text inner rest : List UInt16} {vs : List JsonValue} :
    d.skipSpaces text = u :: inner → d.start u = .array → d.expect (charUnit ']') inner = none →
    Reads d (.elements vs) inner rest → Reads d (.value (.array vs)) text rest
  | emptyObject {u : UInt16} {text inner rest : List UInt16} : d.skipSpaces text = u :: inner →
    d.start u = .object → d.expect (charUnit '\x7d') inner = some rest →
    Reads d (.value (.object [])) text rest
  | object {u : UInt16} {text inner rest : List UInt16} {ps : List (List UInt16 × JsonValue)} :
    d.skipSpaces text = u :: inner → d.start u = .object →
    d.expect (charUnit '\x7d') inner = none → Reads d (.properties ps) inner rest →
    Reads d (.value (.object (d.own ps))) text rest
  | keyword {u : UInt16} {text inner : List UInt16} {v : JsonValue} :
    d.skipSpaces text = u :: inner → d.start u = .name →
    keyword? ((u :: inner).takeWhile isNamePart) = some v →
    Reads d (.value v) text ((u :: inner).dropWhile isNamePart)
  | call {u : UInt16} {text inner argument left rest : List UInt16} {a v : JsonValue} :
    d.skipSpaces text = u :: inner → d.start u = .name →
    keyword? ((u :: inner).takeWhile isNamePart) = none →
    d.expect (charUnit '(') ((u :: inner).dropWhile isNamePart) = some argument →
    Reads d (.value a) argument left → d.expect (charUnit ')') left = some rest →
    d.call ((u :: inner).takeWhile isNamePart) a = some v → Reads d (.value v) text rest
  | lastElement {text left rest : List UInt16} {v : JsonValue} : Reads d (.value v) text left →
    d.expect (charUnit ',') left = none → d.expect (charUnit ']') left = some rest →
    Reads d (.elements [v]) text rest
  | element {text left next rest : List UInt16} {v : JsonValue} {vs : List JsonValue} :
    Reads d (.value v) text left → d.expect (charUnit ',') left = some next →
    Reads d (.elements vs) next rest → Reads d (.elements (v :: vs)) text rest
  | lastProperty {text afterKey inner left rest key : List UInt16} {v : JsonValue} :
    d.readKey text = some (key, afterKey) → d.expect (charUnit ':') afterKey = some inner →
    Reads d (.value v) inner left → d.expect (charUnit ',') left = none →
    d.expect (charUnit '\x7d') left = some rest → Reads d (.properties [(key, v)]) text rest
  | property {text afterKey inner left next rest key : List UInt16} {v : JsonValue}
    {ps : List (List UInt16 × JsonValue)} : d.readKey text = some (key, afterKey) →
    d.expect (charUnit ':') afterKey = some inner → Reads d (.value v) inner left →
    d.expect (charUnit ',') left = some next → Reads d (.properties ps) next rest →
    Reads d (.properties ((key, v) :: ps)) text rest

namespace Dialect

variable {d : Dialect} {fuel : ℕ} {u : UInt16} {text rest : List UInt16}

theorem length_skipSpaces (d : Dialect) (text : List UInt16) :
    (d.skipSpaces text).length ≤ text.length :=
  (List.dropWhile_suffix d.isSpace).length_le

theorem length_of_expect (h : d.expect u text = some rest) : rest.length < text.length := by
  have hle := d.length_skipSpaces text
  unfold expect at h
  split at h
  · rename_i u' inner hskip
    split at h
    · obtain rfl := Option.some.inj h
      rw [hskip, List.length_cons] at hle
      omega
    · cases h
  · cases h

theorem length_of_readKey {key : List UInt16} (h : d.readKey text = some (key, rest)) :
    rest.length ≤ text.length := by
  have hle := d.length_skipSpaces text
  unfold readKey at h
  split at h
  · cases h
  · rename_i u inner hskip
    rw [hskip, List.length_cons] at hle
    split at h
    · have hread := (d.readString_suffix h).length_le
      omega
    · split at h
      · obtain ⟨-, rfl⟩ := Prod.mk.inj (Option.some.inj h)
        have hdrop := (List.dropWhile_suffix isNamePart (l := u :: inner)).length_le
        rw [List.length_cons] at hdrop
        omega
      · cases h
    · cases h

end Dialect

section

variable {d : Dialect} {text rest : List UInt16}

/-- The reader with `fuel` finds the part. -/
def Part.ReadBy (d : Dialect) (fuel : ℕ) (text rest : List UInt16) : Part → Prop
  | .value v => d.readValue fuel text = some (v, rest)
  | .elements vs => d.readElements fuel text = some (vs, rest)
  | .properties ps => d.readProperties fuel text = some (ps, rest)

theorem length_of_skipSpaces_eq {u : UInt16} {inner : List UInt16}
    (h : d.skipSpaces text = u :: inner) : inner.length < text.length := by
  have hle := d.length_skipSpaces text
  rw [h, List.length_cons] at hle
  omega

theorem length_dropName (u : UInt16) (inner : List UInt16) :
    ((u :: inner).dropWhile isNamePart).length ≤ inner.length + 1 :=
  (List.dropWhile_suffix isNamePart (l := u :: inner)).length_le

theorem Reads.length_le {part : Part} (h : Reads d part text rest) : rest.length ≤ text.length := by
  induction h with
  | string hskip _ hread =>
    have := length_of_skipSpaces_eq hskip
    have := (d.readString_suffix hread).length_le
    omega
  | number hskip _ hread =>
    have := length_of_skipSpaces_eq hskip
    have hle := (d.readNumber_suffix hread).length_le
    rw [List.length_cons] at hle
    omega
  | emptyArray hskip _ hend | emptyObject hskip _ hend =>
    have := length_of_skipSpaces_eq hskip
    have := d.length_of_expect hend
    omega
  | array hskip _ _ _ ih | object hskip _ _ _ ih =>
    have := length_of_skipSpaces_eq hskip
    omega
  | keyword hskip _ _ =>
    have := length_of_skipSpaces_eq hskip
    exact (length_dropName _ _).trans (by omega)
  | @call u _ inner _ _ _ _ _ hskip _ _ hopen _ hclose _ ih =>
    have := length_of_skipSpaces_eq hskip
    have := length_dropName u inner
    have := d.length_of_expect hopen
    have := d.length_of_expect hclose
    omega
  | lastElement _ _ hend ih =>
    have := d.length_of_expect hend
    omega
  | element _ hcomma _ ih ihs =>
    have := d.length_of_expect hcomma
    omega
  | lastProperty hkey hcolon _ _ hend ih =>
    have := d.length_of_readKey hkey
    have := d.length_of_expect hcolon
    have := d.length_of_expect hend
    omega
  | property hkey hcolon _ hcomma _ ih ihs =>
    have := d.length_of_readKey hkey
    have := d.length_of_expect hcolon
    have := d.length_of_expect hcomma
    omega

/-- What `Reads` says is read, with as much fuel as the part is long. -/
theorem Reads.readBy {part : Part} (h : Reads d part text rest) :
    ∀ fuel, text.length ≤ rest.length + fuel → part.ReadBy d (fuel + 1) text rest := by
  induction h with
  | string hskip hstart hread =>
    intro fuel _
    simp only [Part.ReadBy, Dialect.readValue, hskip, hstart, hread, Option.map_some]
  | number hskip hstart hread =>
    intro fuel _
    simp only [Part.ReadBy, Dialect.readValue, hskip, hstart, hread, Option.map_some]
  | emptyArray hskip hstart hend | emptyObject hskip hstart hend =>
    intro fuel _
    simp only [Part.ReadBy, Dialect.readValue, hskip, hstart, hend]
  | array hskip hstart hend h ih | object hskip hstart hend h ih =>
    intro fuel hfuel
    have := length_of_skipSpaces_eq hskip
    have := h.length_le
    obtain ⟨fuel, rfl⟩ : ∃ f, fuel = f + 1 := ⟨fuel - 1, by omega⟩
    have hread := ih fuel (by omega)
    rw [Part.ReadBy] at hread
    simp only [Part.ReadBy, Dialect.readValue, hskip, hstart, hend, hread, Option.map_some]
  | keyword hskip hstart hkeyword =>
    intro fuel _
    simp only [Part.ReadBy, Dialect.readValue, hskip, hstart, hkeyword]
  | @call u _ inner _ _ _ _ _ hskip hstart hkeyword hopen h hclose hcall ih =>
    intro fuel hfuel
    have := length_of_skipSpaces_eq hskip
    have := length_dropName u inner
    have := d.length_of_expect hopen
    have := d.length_of_expect hclose
    have := h.length_le
    obtain ⟨fuel, rfl⟩ : ∃ f, fuel = f + 1 := ⟨fuel - 1, by omega⟩
    have hread : d.readValue (fuel + 1) _ = some (_, _) := ih fuel (by omega)
    change d.readValue (fuel + 1 + 1) _ = some (_, _)
    rw [Dialect.readValue]
    simp only [hskip, hstart, hkeyword, hopen, hread, hclose, hcall,
      Option.bind_eq_bind, Option.bind_some]
    rfl
  | lastElement h hcomma hend ih =>
    intro fuel hfuel
    have := d.length_of_expect hend
    have := h.length_le
    obtain ⟨fuel, rfl⟩ : ∃ f, fuel = f + 1 := ⟨fuel - 1, by omega⟩
    have hread : d.readValue (fuel + 1) _ = some (_, _) := ih fuel (by omega)
    change d.readElements (fuel + 1 + 1) _ = some (_, _)
    rw [Dialect.readElements]
    simp only [hread, hcomma, hend, Option.bind_eq_bind, Option.bind_some]
    rfl
  | element h hcomma hs ih ihs =>
    intro fuel hfuel
    have := d.length_of_expect hcomma
    have := h.length_le
    have := hs.length_le
    obtain ⟨fuel, rfl⟩ : ∃ f, fuel = f + 1 := ⟨fuel - 1, by omega⟩
    have hread : d.readValue (fuel + 1) _ = some (_, _) := ih fuel (by omega)
    have hnext : d.readElements (fuel + 1) _ = some (_, _) := ihs fuel (by omega)
    change d.readElements (fuel + 1 + 1) _ = some (_, _)
    rw [Dialect.readElements]
    simp only [hread, hcomma, hnext, Option.bind_eq_bind, Option.bind_some]
    rfl
  | lastProperty hkey hcolon h hcomma hend ih =>
    intro fuel hfuel
    have := d.length_of_readKey hkey
    have := d.length_of_expect hcolon
    have := d.length_of_expect hend
    have := h.length_le
    obtain ⟨fuel, rfl⟩ : ∃ f, fuel = f + 1 := ⟨fuel - 1, by omega⟩
    have hread : d.readValue (fuel + 1) _ = some (_, _) := ih fuel (by omega)
    change d.readProperties (fuel + 1 + 1) _ = some (_, _)
    rw [Dialect.readProperties]
    simp only [hkey, hcolon, hread, hcomma, hend, Option.bind_eq_bind, Option.bind_some]
    rfl
  | property hkey hcolon h hcomma hs ih ihs =>
    intro fuel hfuel
    have := d.length_of_readKey hkey
    have := d.length_of_expect hcolon
    have := d.length_of_expect hcomma
    have := h.length_le
    have := hs.length_le
    obtain ⟨fuel, rfl⟩ : ∃ f, fuel = f + 1 := ⟨fuel - 1, by omega⟩
    have hread : d.readValue (fuel + 1) _ = some (_, _) := ih fuel (by omega)
    have hnext : d.readProperties (fuel + 1) _ = some (_, _) := ihs fuel (by omega)
    change d.readProperties (fuel + 1 + 1) _ = some (_, _)
    rw [Dialect.readProperties]
    simp only [hkey, hcolon, hread, hcomma, hnext, Option.bind_eq_bind, Option.bind_some]
    rfl

/-- What the reader with `fuel` finds is there. -/
def SoundWith (d : Dialect) (fuel : ℕ) : Prop :=
  ∀ (part : Part) {text rest : List UInt16}, part.ReadBy d fuel text rest → Reads d part text rest

theorem reads_of_readValue_succ {fuel : ℕ} (ih : SoundWith d fuel) {v : JsonValue}
    (h : d.readValue (fuel + 1) text = some (v, rest)) : Reads d (.value v) text rest := by
  rw [Dialect.readValue] at h
  cases hskip : d.skipSpaces text with
  | nil =>
    simp only [hskip] at h
    cases h
  | cons u inner =>
    simp only [hskip] at h
    cases hstart : d.start u with
    | string =>
      simp only [hstart] at h
      obtain ⟨⟨s, left⟩, hread, heq⟩ := Option.map_eq_some_iff.mp h
      obtain ⟨rfl, rfl⟩ := Prod.mk.inj heq
      exact .string hskip hstart hread
    | number =>
      simp only [hstart] at h
      obtain ⟨⟨x, left⟩, hread, heq⟩ := Option.map_eq_some_iff.mp h
      obtain ⟨rfl, rfl⟩ := Prod.mk.inj heq
      exact .number hskip hstart hread
    | array =>
      cases hend : d.expect (charUnit ']') inner with
      | some left =>
        simp only [hstart, hend] at h
        obtain ⟨rfl, rfl⟩ := Prod.mk.inj (Option.some.inj h)
        exact .emptyArray hskip hstart hend
      | none =>
        simp only [hstart, hend] at h
        obtain ⟨⟨vs, left⟩, hread, heq⟩ := Option.map_eq_some_iff.mp h
        obtain ⟨rfl, rfl⟩ := Prod.mk.inj heq
        exact .array hskip hstart hend (ih (.elements vs) hread)
    | object =>
      cases hend : d.expect (charUnit '\x7d') inner with
      | some left =>
        simp only [hstart, hend] at h
        obtain ⟨rfl, rfl⟩ := Prod.mk.inj (Option.some.inj h)
        exact .emptyObject hskip hstart hend
      | none =>
        simp only [hstart, hend] at h
        obtain ⟨⟨ps, left⟩, hread, heq⟩ := Option.map_eq_some_iff.mp h
        obtain ⟨rfl, rfl⟩ := Prod.mk.inj heq
        exact .object hskip hstart hend (ih (.properties ps) hread)
    | name =>
      cases hkeyword : keyword? ((u :: inner).takeWhile isNamePart) with
      | some v' =>
        simp only [hstart, hkeyword] at h
        obtain ⟨rfl, rfl⟩ := Prod.mk.inj (Option.some.inj h)
        exact .keyword hskip hstart hkeyword
      | none =>
        simp only [hstart, hkeyword, Option.bind_eq_bind, Option.bind_eq_some_iff] at h
        obtain ⟨argument, hopen, ⟨a, left⟩, hread, after, hclose, v', hcall, heq⟩ := h
        obtain ⟨rfl, rfl⟩ := Prod.mk.inj (Option.some.inj heq)
        exact .call hskip hstart hkeyword hopen (ih (.value a) hread) hclose hcall
    | other =>
      simp only [hstart] at h
      cases h

theorem reads_of_readElements_succ {fuel : ℕ} (ih : SoundWith d fuel) {vs : List JsonValue}
    (h : d.readElements (fuel + 1) text = some (vs, rest)) : Reads d (.elements vs) text rest := by
  rw [Dialect.readElements, Option.bind_eq_bind, Option.bind_eq_some_iff] at h
  obtain ⟨⟨v, left⟩, hread, h⟩ := h
  have hvalue : Reads d (.value v) text left := ih (.value v) hread
  cases hcomma : d.expect (charUnit ',') left with
  | some next =>
    simp only [hcomma, Option.bind_eq_bind, Option.bind_eq_some_iff] at h
    obtain ⟨⟨values, last⟩, hnext, heq⟩ := h
    obtain ⟨rfl, rfl⟩ := Prod.mk.inj (Option.some.inj heq)
    exact .element hvalue hcomma (ih (.elements values) hnext)
  | none =>
    simp only [hcomma, Option.bind_eq_bind, Option.bind_eq_some_iff] at h
    obtain ⟨last, hend, heq⟩ := h
    obtain ⟨rfl, rfl⟩ := Prod.mk.inj (Option.some.inj heq)
    exact .lastElement hvalue hcomma hend

theorem reads_of_readProperties_succ {fuel : ℕ} (ih : SoundWith d fuel)
    {ps : List (List UInt16 × JsonValue)}
    (h : d.readProperties (fuel + 1) text = some (ps, rest)) :
    Reads d (.properties ps) text rest := by
  rw [Dialect.readProperties] at h
  simp only [Option.bind_eq_bind, Option.bind_eq_some_iff] at h
  obtain ⟨⟨key, afterKey⟩, hkey, inner, hcolon, ⟨v, left⟩, hread, h⟩ := h
  have hvalue : Reads d (.value v) inner left := ih (.value v) hread
  cases hcomma : d.expect (charUnit ',') left with
  | some next =>
    simp only [hcomma, Option.bind_eq_some_iff] at h
    obtain ⟨⟨properties, last⟩, hnext, heq⟩ := h
    obtain ⟨rfl, rfl⟩ := Prod.mk.inj (Option.some.inj heq)
    exact .property hkey hcolon hvalue hcomma (ih (.properties properties) hnext)
  | none =>
    simp only [hcomma, Option.bind_eq_some_iff] at h
    obtain ⟨last, hend, heq⟩ := h
    obtain ⟨rfl, rfl⟩ := Prod.mk.inj (Option.some.inj heq)
    exact .lastProperty hkey hcolon hvalue hcomma hend

/-- Nothing else is read. -/
theorem reads_of_readBy (fuel : ℕ) : SoundWith d fuel := by
  induction fuel with
  | zero =>
    intro part text rest h
    cases part with
    | value v => cases h
    | elements vs => cases h
    | properties ps => cases h
  | succ fuel ih =>
    intro part text rest h
    cases part with
    | value v => exact reads_of_readValue_succ ih h
    | elements vs => exact reads_of_readElements_succ ih h
    | properties ps => exact reads_of_readProperties_succ ih h

/-- `evaluate` gives the value of the expression that the text is, but for spaces after it. -/
theorem evaluate_eq_some_iff {v : JsonValue} :
    d.evaluate text = some v ↔ ∃ rest, Reads d (.value v) text rest ∧ d.skipSpaces rest = [] := by
  unfold Dialect.evaluate
  constructor
  · intro h
    split at h
    · rename_i v' rest hread
      split at h
      · rename_i hspaces
        obtain rfl := Option.some.inj h
        exact ⟨rest, reads_of_readBy _ (.value v') hread, hspaces⟩
      · cases h
    · cases h
  · rintro ⟨rest, hreads, hspaces⟩
    have hread : d.readValue (text.length + 1) text = some (v, rest) :=
      hreads.readBy text.length (by omega)
    simp only [hread, if_pos hspaces]

end

/-! ## Reading what is known to be there -/

section

variable {d : Dialect} {u : UInt16} {text rest : List UInt16}

namespace Dialect

theorem skipSpaces_of_not_space (h : d.isSpace u = false) : d.skipSpaces (u :: text) = u :: text :=
  List.dropWhile_cons_of_neg (by simp [h])

theorem skipSpaces_space (h : d.isSpace u = true) : d.skipSpaces (u :: text) = d.skipSpaces text :=
  List.dropWhile_cons_of_pos h

theorem expect_of_skipSpaces (h : d.skipSpaces text = u :: rest) : d.expect u text = some rest := by
  simp only [expect, h, if_true]

theorem expect_of_ne {u' : UInt16} (h : d.skipSpaces text = u' :: rest) (hne : u' ≠ u) :
    d.expect u text = none := by
  simp only [expect, h, if_neg hne]

theorem expect_self (h : d.isSpace u = false) : d.expect u (u :: rest) = some rest :=
  expect_of_skipSpaces (skipSpaces_of_not_space h)

end Dialect

/-- A name ends where something stands that is no part of it. -/
theorem takeWhile_name {name : List UInt16} (h : ∀ u ∈ name, isNamePart u = true)
    (hrest : ∀ u ∈ rest.head?, isNamePart u = false) :
    (name ++ rest).takeWhile isNamePart = name ∧ (name ++ rest).dropWhile isNamePart = rest := by
  rw [List.takeWhile_append_of_pos h, List.dropWhile_append_of_pos h]
  cases rest with
  | nil => exact ⟨List.append_nil name, rfl⟩
  | cons u rest =>
    have hu : ¬isNamePart u = true := by simp [hrest u rfl]
    rw [List.takeWhile_cons_of_neg hu, List.dropWhile_cons_of_neg hu]
    exact ⟨List.append_nil name, rfl⟩

/-- A name that is followed by something else. -/
structure IsName (name : List UInt16) : Prop where
  parts : ∀ u ∈ name, isNamePart u = true
  start : ∀ u ∈ name.head?, isNameStart u = true
  ne_nil : name ≠ []

/-- The text goes on with something that is not part of a number or a name. -/
def Delimited (rest : List UInt16) : Prop :=
  ∀ u ∈ rest.head?, isNamePart u = false ∧ u ≠ charUnit '.'

theorem delimited_nil : Delimited [] := by
  intro u hu
  cases hu

theorem delimited_cons (h : isNamePart u = false) (hpoint : u ≠ charUnit '.') :
    Delimited (u :: rest) := by
  intro u' hu
  obtain rfl := Option.some.inj hu
  exact ⟨h, hpoint⟩

theorem Delimited.not_isNamePart (h : Delimited rest) : ∀ u ∈ rest.head?, isNamePart u = false :=
  fun u hu => (h u hu).1

theorem Delimited.numberEnds (h : Delimited rest) : JsNumber.NumberEnds rest := by
  intro u hu
  obtain ⟨hpart, hpoint⟩ := h u hu
  have hdigit : digitOf? u = none := by
    rw [isNamePart, Bool.or_eq_false_iff] at hpart
    simpa using hpart.2
  refine ⟨hdigit, hpoint, ?_, ?_⟩
  · rintro rfl
    exact absurd hpart (by decide)
  · rintro rfl
    exact absurd hpart (by decide)

/-- A dialect in which names look as they do in JavaScript. -/
def Dialect.HasNames (d : Dialect) : Prop := ∀ u, isNameStart u = true → d.start u = .name

theorem reads_keyword (hnames : d.HasNames) {name : List UInt16} {value : JsonValue}
    (hname : IsName name) (hrest : Delimited rest) (h : d.skipSpaces text = name ++ rest)
    (hvalue : keyword? name = some value) : Reads d (.value value) text rest := by
  obtain ⟨u, tail, rfl⟩ := List.exists_cons_of_ne_nil hname.ne_nil
  obtain ⟨htake, hdrop⟩ := takeWhile_name hname.parts hrest.not_isNamePart
  rw [List.cons_append] at h htake hdrop
  have hreads := Reads.keyword h (hnames u (hname.start u rfl)) (htake.symm ▸ hvalue)
  rwa [hdrop] at hreads

theorem reads_call (hnames : d.HasNames) {name argument left : List UInt16} {a value : JsonValue}
    (hname : IsName name) (hkeyword : keyword? name = none)
    (h : d.skipSpaces text = name ++ charUnit '(' :: argument) (hopen : d.isSpace (charUnit '(') = false)
    (hargument : Reads d (.value a) argument left) (hend : d.expect (charUnit ')') left = some rest)
    (hcall : d.call name a = some value) : Reads d (.value value) text rest := by
  obtain ⟨u, tail, rfl⟩ := List.exists_cons_of_ne_nil hname.ne_nil
  have hparen : ∀ u ∈ (charUnit '(' :: argument).head?, isNamePart u = false := by
    intro u hu
    obtain rfl := Option.some.inj hu
    decide
  obtain ⟨htake, hdrop⟩ := takeWhile_name hname.parts hparen
  rw [List.cons_append] at h htake hdrop
  refine .call h (hnames u (hname.start u rfl)) (htake.symm ▸ hkeyword) ?_ hargument hend
    (htake.symm ▸ hcall)
  rw [hdrop]
  exact d.expect_self hopen

/-- The text begins neither with a space nor with the bracket `close`. -/
def StartsInside (d : Dialect) (close : UInt16) (text : List UInt16) : Prop :=
  ∃ u tail, text = u :: tail ∧ d.isSpace u = false ∧ u ≠ close

namespace StartsInside

variable {close : UInt16}

theorem append (h : StartsInside d close text) (rest : List UInt16) :
    StartsInside d close (text ++ rest) := by
  obtain ⟨u, tail, rfl, hspace, hclose⟩ := h
  exact ⟨u, tail ++ rest, rfl, hspace, hclose⟩

theorem skipSpaces (h : StartsInside d close text) : d.skipSpaces text = text := by
  obtain ⟨u, tail, rfl, hspace, -⟩ := h
  exact d.skipSpaces_of_not_space hspace

theorem skipSpaces_space (h : StartsInside d close text) (hspace : d.isSpace u = true) :
    d.skipSpaces (u :: text) = text := by
  rw [d.skipSpaces_space hspace, h.skipSpaces]

theorem expect_close (h : StartsInside d close text) {text' : List UInt16}
    (hskip : d.skipSpaces text' = text) : d.expect close text' = none := by
  obtain ⟨u, tail, rfl, -, hclose⟩ := h
  exact d.expect_of_ne hskip hclose

end StartsInside

end

end Lib
