import N8n.Expressions.FromAIRoundTrip

/-!
# Escapes in the arguments of `$fromAI`

An argument can be written between single quotes with a backslash before every backslash and
every single quote. The scanner keeps these backslashes, `splitArguments` takes them away, and
`unescapeArg` takes away those that the argument itself has before a quote or a backslash. So a
key and a description come back exactly when they have no such backslash, and when there is no
other call in them (`extractFromAICalls_quotedCall_iff`).
-/

open Lib

namespace N8n

/-- The text between single quotes, a backslash before every backslash and single quote. -/
def singleQuoted (s : JsString) : JsString :=
  codeUnit '\'' :: (s.flatMap (escapeQuoteUnit (codeUnit '\'')) ++ [codeUnit '\''])

/-- `$fromAI('key', 'description')` -/
def quotedCall (key description : JsString) : JsString :=
  units "$fromAI(" ++ (singleQuoted key ++ (units ", " ++ (singleQuoted description ++ units ")")))

/-- One record is read, with this key and this description. -/
def ReadsQuoted (key description : JsString) (records : Except JsString (List FromAIArgument)) :
    Prop :=
  ∃ record, records = .ok [record] ∧ record.key = key ∧ record.description = some description

/-! ## One argument -/

theorem isQuote_singleQuote : isQuote (codeUnit '\'') = true := by decide

theorem singleQuoted_eq (s : JsString) : singleQuoted s =
    codeUnit '\'' :: (escapeForQuote s (codeUnit '\'') ++ [codeUnit '\'']) := by
  rw [singleQuoted, escapeForQuote_eq isQuote_singleQuote]

theorem passes_singleQuoted (s : JsString) : Passes (singleQuoted s) := by
  rw [singleQuoted_eq]
  exact (escapeForQuote_spec isQuote_singleQuote s).1.passes isQuote_singleQuote

theorem readsAs_singleQuoted (s : JsString) :
    ReadsAs (singleQuoted s) (codeUnit '\'' :: (s ++ [codeUnit '\''])) := by
  obtain ⟨hinside, hdrop⟩ := escapeForQuote_spec isQuote_singleQuote s
  have hreads := hinside.readsAs isQuote_singleQuote
  rwa [hdrop, ← singleQuoted_eq] at hreads

/-- A call in the quotes or after them. -/
theorem hasCall_singleQuoted (s t : JsString) :
    hasCall (singleQuoted s ++ t) = (hasCall s || hasCall t) := by
  have hcall := isCallUnit_of_isQuote isQuote_singleQuote
  have htext : singleQuoted s ++ t = codeUnit '\'' ::
      (escapeForQuote s (codeUnit '\'') ++ codeUnit '\'' :: t) := by
    simp [singleQuoted_eq]
  rw [htext, hasCall_cons_of_not hcall, hasCall_append hcall,
    hasCall_escapeForQuote isQuote_singleQuote]

/-! ## The call -/

variable (key description : JsString)

/-- The arguments as they are written. -/
def quotedArgs : JsString := singleQuoted key ++ (units ", " ++ singleQuoted description)

theorem cleanArgs_quotedArgs :
    (splitArguments none false [] (quotedArgs key description)).map cleanArg =
      [unescapeArg key, unescapeArg description] := by
  obtain ⟨-, hkey, hcleanKey⟩ := cleanArg_quoted isQuote_singleQuote key
  obtain ⟨hdescription, -, hclean⟩ := cleanArg_quoted isQuote_singleQuote description
  have hargs : quotedArgs key description = singleQuoted key ++ textAfter [singleQuoted description] := by
    simp [quotedArgs, textAfter]
  have hlast : readArgs [singleQuoted description] = [unescapeArg description] := by
    rw [readArgs, readsAs_singleQuoted description, splitArguments_textAfter
      (List.append_ne_nil_of_left_ne_nil (by decide) _), hdescription, hclean]
    rfl
  rw [hargs, readsAs_singleQuoted key, List.nil_append,
    splitArguments_textAfter (List.cons_ne_nil _ _), hkey, hcleanKey, hlast]

/-- The record that is read of the call. -/
def quotedRecord : FromAIArgument where
  key := unescapeArg key
  description := some (unescapeArg description)
  type := units "string"
  defaultValue := none

theorem readCall_quotedArgs :
    readCall (quotedArgs key description ++ units ")") = .ok (quotedRecord key description) := by
  have hpasses : Passes (quotedArgs key description) :=
    (passes_singleQuoted key).append
      ((passes_of_plain (by decide)).append (passes_singleQuoted description))
  have hscan := hpasses 0 (units ")")
  have hclose : scanArguments none 1 (units ")") = some [] := by decide
  rw [hclose, Option.map_some, List.append_nil] at hscan
  have hparse : parseArguments (quotedArgs key description) = .ok (quotedRecord key description) := by
    simp only [parseArguments, cleanArgs_quotedArgs]
    rfl
  simp only [readCall, hscan, hparse]

theorem searchFromAI_quotedCall :
    searchFromAI (quotedCall key description) = some (quotedArgs key description ++ units ")") := by
  have hmatch : ∀ rest, matchFromAI (units "$fromAI(" ++ rest) = some (rest.dropWhile isSpace) :=
    fun rest => rfl
  have htext : quotedCall key description =
      units "$fromAI(" ++ (quotedArgs key description ++ units ")") := by
    simp [quotedCall, quotedArgs]
  have hdrop : (quotedArgs key description ++ units ")").dropWhile isSpace =
      quotedArgs key description ++ units ")" :=
    List.dropWhile_cons_of_neg (by decide)
  have hcons : ∃ u s, units "$fromAI(" ++ (quotedArgs key description ++ units ")") = u :: s :=
    ⟨_, _, rfl⟩
  obtain ⟨u, s, hus⟩ := hcons
  rw [htext, hus, searchFromAI, ← hus, hmatch, hdrop]
  rfl

theorem hasCall_quotedArgs : hasCall (quotedArgs key description ++ units ")") =
    (hasCall key || hasCall description) := by
  have hclose : hasCall (units ")") = false := by decide
  have htext : quotedArgs key description ++ units ")" =
      singleQuoted key ++ (units ", " ++ (singleQuoted description ++ units ")")) := by
    simp [quotedArgs]
  rw [htext, hasCall_singleQuoted, hasCall_separator, hasCall_singleQuoted, hclose, Bool.or_false]

/-- A key and a description in quotes come back exactly when there is no call in them and no
backslash of theirs stands before a quote or a backslash. -/
theorem extractFromAICalls_quotedCall_iff :
    ReadsQuoted key description (extractFromAICalls (quotedCall key description)) ↔
      (hasCall key = false ∧ Unescaped key) ∧ hasCall description = false ∧ Unescaped description := by
  have hone := extractFromAICalls_eq_singleton_iff (searchFromAI_quotedCall key description)
  rw [← unescapeArg_eq_self_iff key, ← unescapeArg_eq_self_iff description]
  constructor
  · rintro ⟨record, hrecords, hkey, hdescription⟩
    obtain ⟨hcall, hnone⟩ := (hone record).mp hrecords
    rw [readCall_quotedArgs, Except.ok.injEq] at hcall
    subst hcall
    rw [hasCall_quotedArgs, Bool.or_eq_false_iff] at hnone
    exact ⟨⟨hnone.1, hkey⟩, hnone.2, Option.some.inj hdescription⟩
  · rintro ⟨⟨hcallKey, hkey⟩, hcall, hdescription⟩
    refine ⟨quotedRecord key description, (hone _).mpr ⟨readCall_quotedArgs key description, ?_⟩,
      hkey, congrArg some hdescription⟩
    rw [hasCall_quotedArgs, hcallKey, hcall]
    rfl

/-- Of two backslashes only one comes back. -/
theorem extractFromAICalls_not_readsQuoted :
    ¬∀ key description : JsString,
      ReadsQuoted key description (extractFromAICalls (quotedCall key description)) := by
  intro h
  obtain ⟨record, hrecords, -, hdescription⟩ := h (units "path") (units "C:\\\\share")
  obtain ⟨hcall, -⟩ := (extractFromAICalls_eq_singleton_iff
    (searchFromAI_quotedCall _ _) record).mp hrecords
  rw [readCall_quotedArgs, Except.ok.injEq] at hcall
  subst hcall
  have hread : unescapeArg (units "C:\\\\share") = units "C:\\share" := by decide
  have hsame := hread.symm.trans (Option.some.inj hdescription)
  exact absurd hsame (by decide)

end N8n
