import N8n.Expressions.FromAIOnly
import N8n.Expressions.FromAIRoundTrip
import N8n.Expressions.FromAITypes

/-!
# Reading what is accepted

`extractFromAICalls` reads an expression that `isFromAIOnlyExpression` accepts. It finds the call
(`searchFromAI_of_isCallOf`) and goes over the same pieces to the same closing parenthesis. Then it
looks for the next call from the beginning of the arguments, so a call in a quoted text is read as
well. It also reads white space after a last comma as an argument, and the type without its
backslashes. Otherwise there is one record (`extractFromAICalls_agrees_iff`).
-/

open Lib

namespace N8n

/-! ## Where the call is found -/

/-- `t` is a part of `s` with no `$` around it. -/
def IsCore (t s : JsString) : Prop :=
  ∃ pre post : JsString, s = pre ++ (t ++ post) ∧ codeUnit '$' ∉ pre ∧ codeUnit '$' ∉ post

theorem IsCore.refl (s : JsString) : IsCore s s :=
  ⟨[], [], by simp, List.not_mem_nil, List.not_mem_nil⟩

theorem IsCore.trans {s t r : JsString} (hts : IsCore t s) (hrt : IsCore r t) : IsCore r s := by
  obtain ⟨pre, post, rfl, hpre, hpost⟩ := hts
  obtain ⟨pre', post', rfl, hpre', hpost'⟩ := hrt
  refine ⟨pre ++ pre', post' ++ post, by simp, ?_, ?_⟩
  · exact fun hmem => (List.mem_append.mp hmem).elim hpre hpre'
  · exact fun hmem => (List.mem_append.mp hmem).elim hpost' hpost

theorem dollar_not_mem_of_space {s : JsString} (h : ∀ u ∈ s, isSpace u = true) :
    codeUnit '$' ∉ s := by
  intro hmem
  exact absurd (h _ hmem) (by decide)

theorem isCore_trim (s : JsString) : IsCore (trim s) s := by
  obtain ⟨pre, post, hpre, hpost, heq⟩ := exists_append_trimBy isSpace s
  exact ⟨pre, post, heq, dollar_not_mem_of_space hpre, dollar_not_mem_of_space hpost⟩

theorem isCore_stripEquals (s : JsString) : IsCore (stripEquals s) s := by
  unfold stripEquals
  split
  · rename_i hhead
    cases s with
    | nil => cases hhead
    | cons u s =>
      obtain rfl := Option.some.inj hhead
      exact ⟨[codeUnit '='], [], by simp, by decide, List.not_mem_nil⟩
  · exact .refl s

theorem isCore_stripDelimiters (s : JsString) : IsCore (stripDelimiters s) s := by
  unfold stripDelimiters
  split
  · rename_i hdelimiters
    obtain ⟨⟨t, rfl⟩, hsuffix⟩ := hdelimiters
    have hdrop : (units "\x7b\x7b" ++ t).drop 2 = t := List.drop_left' rfl
    rw [hdrop]
    refine IsCore.trans ⟨units "\x7b\x7b", t.rtake 2, ?_, by decide, fun hmem => ?_⟩ (isCore_trim _)
    · rw [List.rdrop, List.rtake, List.take_append_drop]
    · -- what is cut off at the end is a part of the closing delimiter
      have hsuffix' : t.rtake 2 <:+ units "\x7b\x7b" ++ t :=
        (List.drop_suffix _ t).trans (List.suffix_append _ t)
      have hlength : (t.rtake 2).length ≤ (units "\x7d\x7d").length := by
        have htwo : (units "\x7d\x7d").length = 2 := by decide
        rw [htwo, List.rtake, List.length_drop]
        omega
      have hpart := List.suffix_of_suffix_length_le hsuffix' hsuffix hlength
      exact absurd (hpart.subset hmem) (by decide)
  · exact .refl s

theorem isCore_stripMarker (s : JsString) : IsCore (stripMarker s) s := by
  unfold stripMarker
  split
  · rename_i hmarker
    obtain ⟨t, rfl⟩ := hmarker
    rw [List.drop_left]
    exact IsCore.trans ⟨fromAIMarker, [], by simp, by decide, List.not_mem_nil⟩ (isCore_trim t)
  · exact .refl s

theorem isCore_callText (expr : JsString) : IsCore (callText expr) expr :=
  (((isCore_stripEquals expr).trans (isCore_trim _)).trans (isCore_stripDelimiters _)).trans
    (isCore_stripMarker _)

theorem matchFromAI_of_matchCallStart {str rest : JsString} (h : matchCallStart str = some rest) :
    matchFromAI str = some (rest.dropWhile isSpace) := by
  obtain ⟨hname, hdrop⟩ := callStart_iff.mpr (matchCallStart_eq_some_iff.mp h)
  rw [matchFromAI, if_pos hname, hdrop]
  rfl

/-- The arguments are read from the beginning of their text. -/
theorem searchFromAI_of_isCallOf {expr args : JsString} (h : IsCallOf args (callText expr)) :
    ∃ after, codeUnit '$' ∉ after ∧
      searchFromAI expr = some ((args ++ codeUnit ')' :: after).dropWhile isSpace) := by
  obtain ⟨pre, post, heq, hpre, hpost⟩ := isCore_callText expr
  obtain ⟨name, spaces, trailing, hname, hspaces, htrailing, htext⟩ := h
  refine ⟨trailing ++ post, ?_, ?_⟩
  · exact fun hmem => (List.mem_append.mp hmem).elim (dollar_not_mem_of_space htrailing) hpost
  · have hstart : matchFromAI (callText expr ++ post) =
        some ((args ++ codeUnit ')' :: (trailing ++ post)).dropWhile isSpace) := by
      refine matchFromAI_of_matchCallStart (matchCallStart_eq_some_iff.mpr
        ⟨name, spaces, ?_, hname, hspaces⟩)
      rw [htext]
      simp
    rw [heq, searchFromAI_append hpre]
    cases hcall : callText expr ++ post with
    | nil =>
      rw [hcall] at hstart
      cases hstart
    | cons u str =>
      rw [hcall] at hstart
      rw [searchFromAI, hstart, Option.some_or]

/-! ## Calls in quotes -/

namespace Piece

/-- A quoted text with a call in it. -/
def quotesCall : Piece → Bool
  | unit _ => false
  | quoted _ text => hasCall text

theorem quotesCall_of_isBlank {piece : Piece} (h : piece.isBlank = true) :
    piece.quotesCall = false := by
  cases piece with
  | unit u => rfl
  | quoted q text => cases h

end Piece

theorem hasCall_textOf {pieces : List Piece} (h : ∀ piece ∈ pieces, piece.IsPassed)
    (after : JsString) :
    hasCall (textOf pieces ++ after) = (pieces.any Piece.quotesCall || hasCall after) := by
  induction pieces with
  | nil => rw [textOf_nil, List.nil_append, List.any_nil, Bool.false_or]
  | cons piece pieces ih =>
    obtain ⟨hpiece, hpieces⟩ := List.forall_mem_cons.mp h
    rw [textOf_cons, List.append_assoc, List.any_cons, Bool.or_assoc, ← ih hpieces]
    cases piece with
    | unit u =>
      have hu : isLiteralUnit u = true := hpiece
      have hdollar : u ≠ codeUnit '$' := ne_of_refused hu (by decide)
      rw [Piece.text, List.singleton_append, hasCall_cons, matchFromAI_of_ne hdollar]
      rfl
    | quoted q text =>
      have hq := isCallUnit_of_isQuote hpiece.1
      rw [Piece.text, List.cons_append, hasCall_cons_of_not hq, List.append_assoc,
        List.singleton_append, hasCall_append hq]
      rfl

/-! ## Reading the pieces -/

theorem isPlain_of_isLiteralUnit {u : UInt16} (h : isLiteralUnit u = true) : isPlain u = true := by
  have hquote : isQuote u = false := decide_eq_false (not_mem_of_refused h (by decide))
  have hopen : u ≠ codeUnit '(' := ne_of_refused h (by decide)
  have hclose : u ≠ codeUnit ')' := ne_of_refused h (by decide)
  have hbackslash : u ≠ codeUnit '\\' := ne_of_refused h (by decide)
  simp [isPlain, hquote, hopen, hclose, hbackslash]

theorem passes_textOf {pieces : List Piece} (h : ∀ piece ∈ pieces, piece.IsPassed) :
    Passes (textOf pieces) := by
  induction pieces with
  | nil => exact passes_nil
  | cons piece pieces ih =>
    obtain ⟨hpiece, hpieces⟩ := List.forall_mem_cons.mp h
    rw [textOf_cons]
    refine Passes.append ?_ (ih hpieces)
    cases piece with
    | unit u => exact passes_plain (isPlain_of_isLiteralUnit hpiece)
    | quoted q text => exact hpiece.2.inside.passes hpiece.1

/-- A piece as it is read : without the backslashes. -/
def Piece.read : Piece → JsString
  | unit u => [u]
  | quoted quoteChar text => quoteChar :: (dropEscapes text ++ [quoteChar])

def readOf (pieces : List Piece) : JsString := pieces.flatMap Piece.read

theorem readOf_ne_nil {pieces : List Piece} (h : pieces ≠ []) : readOf pieces ≠ [] := by
  cases pieces with
  | nil => exact absurd rfl h
  | cons piece pieces =>
    rw [readOf, List.flatMap_cons]
    cases piece with
    | unit u => exact List.cons_ne_nil _ _
    | quoted q text => exact List.cons_ne_nil _ _

theorem readsAs_textOf {pieces : List Piece}
    (h : ∀ piece ∈ pieces, piece.IsPassed ∧ isComma piece = false) :
    ReadsAs (textOf pieces) (readOf pieces) := by
  induction pieces with
  | nil => exact readsAs_nil
  | cons piece pieces ih =>
    obtain ⟨⟨hpiece, hcomma⟩, hpieces⟩ := List.forall_mem_cons.mp h
    rw [textOf_cons, readOf, List.flatMap_cons]
    refine ReadsAs.append ?_ (ih hpieces)
    cases piece with
    | unit u =>
      refine readsAs_plain (isPlain_of_isLiteralUnit hpiece) ?_
      rintro rfl
      cases hcomma
    | quoted q text => exact hpiece.2.inside.readsAs hpiece.1

/-- The arguments between the commas. Nothing after the last one is no argument. -/
def readSegments : List (List Piece) → List JsString
  | [] => []
  | [last] => if readOf last = [] then [] else [trim (readOf last)]
  | segment :: next :: segments => trim (readOf segment) :: readSegments (next :: segments)

theorem readSegments_cons {segment : List Piece} {segments : List (List Piece)}
    (hne : segments ≠ []) :
    readSegments (segment :: segments) = trim (readOf segment) :: readSegments segments := by
  cases segments with
  | nil => exact absurd rfl hne
  | cons next segments => rfl

theorem splitArguments_comma (currentArg str : JsString) :
    splitArguments none false currentArg (codeUnit ',' :: str) =
      trim currentArg :: splitArguments none false [] str := by
  rw [splitArguments, if_neg Bool.false_ne_true, if_neg (by decide), if_neg (by decide),
    if_pos ⟨rfl, rfl⟩]

theorem splitArguments_textOf {pieces : List Piece} (h : ∀ piece ∈ pieces, piece.IsPassed) :
    splitArguments none false [] (textOf pieces) = readSegments (pieces.splitOnP isComma) := by
  induction pieces using separated_induction isComma with
  | single pieces hnone =>
    have hreads := readsAs_textOf (fun piece hpiece => ⟨h piece hpiece, hnone piece hpiece⟩) [] []
    rw [List.append_nil, List.nil_append] at hreads
    rw [List.splitOnP_eq_singleton hnone, hreads, splitArguments, readSegments]
  | cons pre sep post hnone hsep ih =>
    obtain rfl : sep = .unit (codeUnit ',') := of_decide_eq_true hsep
    obtain ⟨hpre, hrest⟩ := List.forall_mem_append.mp h
    have hreads := readsAs_textOf (fun piece hpiece => ⟨hpre piece hpiece, hnone piece hpiece⟩) []
      (codeUnit ',' :: textOf post)
    rw [List.nil_append] at hreads
    rw [List.splitOnP_append_cons_of_forall_mem hnone _ hsep,
      readSegments_cons (List.splitOnP_ne_nil isComma post), textOf_append, textOf_cons, Piece.text,
      List.singleton_append, hreads, splitArguments_comma, ih (List.forall_mem_cons.mp hrest).2]

theorem readSegments_getElem? (segments : List (List Piece)) (n : ℕ) :
    (readSegments segments)[n]? = (readSegments (segments.drop n)).head? := by
  induction n generalizing segments with
  | zero => rw [List.drop_zero, List.head?_eq_getElem?]
  | succ n ih =>
    match segments with
    | [] => rfl
    | [last] =>
      have hlength : (readSegments [last]).length ≤ 1 := by
        rw [readSegments]
        split <;> simp
      rw [List.drop_succ_cons, List.drop_nil, List.getElem?_eq_none (by omega)]
      rfl
    | segment :: next :: segments =>
      rw [readSegments_cons (List.cons_ne_nil _ _), List.getElem?_cons_succ, ih,
        List.drop_succ_cons]

theorem dropWhile_textOf {u : UInt16} (hu : isSpace u = false) (after : JsString)
    (pieces : List Piece) (hquotes : ∀ q text, .quoted q text ∈ pieces → isQuote q = true) :
    (textOf pieces ++ u :: after).dropWhile isSpace =
      textOf (pieces.dropWhile Piece.isBlank) ++ u :: after := by
  induction pieces with
  | nil => exact List.dropWhile_cons_of_neg (by simp [hu])
  | cons piece pieces ih =>
    cases piece with
    | unit v =>
      rw [textOf_cons, Piece.text, List.singleton_append, List.cons_append]
      by_cases hv : isSpace v = true
      · have hblank : (Piece.unit v).isBlank = true := hv
        rw [List.dropWhile_cons_of_pos hv, List.dropWhile_cons_of_pos hblank,
          ih fun q text hmem => hquotes q text (.tail _ hmem)]
      · have hblank : ¬(Piece.unit v).isBlank = true := hv
        rw [List.dropWhile_cons_of_neg hv, List.dropWhile_cons_of_neg hblank, textOf_cons,
          Piece.text, List.singleton_append, List.cons_append]
    | quoted q text =>
      have hq : ¬isSpace q = true := by simp [isSpace_of_isQuote (hquotes q text List.mem_cons_self)]
      have hblank : ¬(Piece.quoted q text).isBlank = true := Bool.false_ne_true
      rw [List.dropWhile_cons_of_neg hblank, textOf_cons, Piece.text, List.cons_append,
        List.cons_append, List.dropWhile_cons_of_neg hq]

/-! ## The type -/

/-- The third argument. White space after the last comma is no argument. -/
def thirdArgument (segments : List (List Piece)) : Option (List Piece) :=
  match segments.drop 2 with
  | [] => none
  | [last] => if trimBy Piece.isBlank last = [] then none else some last
  | segment :: _ :: _ => some segment

/-- There is only white space where a third argument would stand. -/
def blankThird (segments : List (List Piece)) : Bool :=
  match segments.drop 2 with
  | [last] => last ≠ [] && trimBy Piece.isBlank last = []
  | _ => false

/-- The argument is one quoted text with an escape of more than one unit by another. -/
def escapesCode (argument : List Piece) : Bool :=
  match trimBy Piece.isBlank argument with
  | [.quoted _ body] => hasCodeEscape body
  | _ => false

/-- The argument is one of the types, in quotes or without. -/
def NamesType (argument : List Piece) : Prop :=
  ∃ w, isFromAIArgumentType w = true ∧ (trimBy Piece.isBlank argument = w.map .unit ∨
    ∃ q body, trimBy Piece.isBlank argument = [.quoted q body] ∧ Spells body w)

/-- The type that is read. -/
def readType (segments : List (List Piece)) : JsString :=
  ((readSegments (segments.drop 2)).head?.map cleanArg).getD (units "string")

/-- Spaces around the argument are not read. -/
theorem trim_readOf {argument mid : List Piece} (hmid : trimBy Piece.isBlank argument = mid)
    (hhead : ∀ u ∈ (readOf mid).head?, isSpace u = false)
    (hlast : ∀ u ∈ (readOf mid).getLast?, isSpace u = false) :
    trim (readOf argument) = readOf mid := by
  have hread : ∀ {pieces : List Piece}, (∀ piece ∈ pieces, piece.isBlank = true) →
      ∀ u ∈ readOf pieces, isSpace u = true := by
    intro pieces hpieces u hu
    obtain ⟨piece, hpiece, hu⟩ := List.mem_flatMap.mp hu
    have hblank := hpieces piece hpiece
    cases piece with
    | unit v =>
      rw [Piece.read, List.mem_singleton] at hu
      rwa [hu]
    | quoted => cases hblank
  obtain ⟨before, after, hbefore, hafter, heq⟩ := exists_append_trimBy Piece.isBlank argument
  rw [hmid] at heq
  rw [heq, readOf, List.flatMap_append, List.flatMap_append]
  exact trimBy_append (hread hbefore) (hread hafter) hhead hlast

theorem not_special_of_isTypeUnit {u : UInt16} (h : isTypeUnit u = true) :
    isSpace u = false ∧ isQuote u = false :=
  ⟨decide_eq_false (not_mem_of_refused h (by decide)),
    decide_eq_false (not_mem_of_refused h (by decide))⟩

/-- A type without quotes is read as it is. -/
theorem cleanArg_of_type {w : JsString} (h : isFromAIArgumentType w = true) :
    cleanArg w = w ∧ ∀ u ∈ w, isSpace u = false := by
  have hunits : ∀ u ∈ w, isSpace u = false ∧ isQuote u = false :=
    fun u hu => not_special_of_isTypeUnit (isTypeUnit_of_type h u hu)
  have hspace : ∀ u ∈ w, isSpace u = false := fun u hu => (hunits u hu).1
  refine ⟨?_, hspace⟩
  cases w with
  | nil => rfl
  | cons u w =>
    exact cleanArg_plain (JsNumber.trim_of_not_space hspace) (hunits u List.mem_cons_self).2

/-- A type in the third argument is read as one unless an escape in it is a code. -/
theorem isFromAIArgumentType_read {argument : List Piece} (h : NamesType argument)
    (hquotes : ∀ q text, .quoted q text ∈ argument → isQuote q = true) :
    isFromAIArgumentType (cleanArg (trim (readOf argument))) = !escapesCode argument := by
  obtain ⟨w, hw, hmid | ⟨q, body, hmid, hspells⟩⟩ := h
  · obtain ⟨hclean, hspace⟩ := cleanArg_of_type hw
    have hread : readOf (w.map .unit) = w := by
      rw [readOf, List.flatMap_map]
      exact List.flatMap_singleton' w
    have hplain : escapesCode argument = false := by
      rw [escapesCode, hmid]
      split
      · rename_i q body heq
        have hmem : Piece.quoted q body ∈ w.map Piece.unit := heq ▸ List.mem_cons_self
        obtain ⟨u, -, hu⟩ := List.mem_map.mp hmem
        cases hu
      · rfl
    have htrim := trim_readOf hmid (by rw [hread]; exact fun u hu => hspace u (List.mem_of_mem_head? hu))
      (by rw [hread]; exact fun u hu => hspace u (List.mem_of_mem_getLast? hu))
    rw [htrim, hread, hclean, hw, hplain, Bool.not_false]
  · have hmem : Piece.quoted q body ∈ argument := mem_of_mem_trimBy (hmid ▸ List.mem_cons_self)
    have hq := hquotes q body hmem
    have hspace := isSpace_of_isQuote hq
    have hread : readOf [.quoted q body] = q :: (dropEscapes body ++ [q]) := by
      rw [readOf, List.flatMap_singleton, Piece.read]
    have hlast : (q :: (dropEscapes body ++ [q])).getLast? = some q :=
      List.getLast?_concat (l := q :: dropEscapes body)
    have htrim := trim_readOf hmid
      (by rw [hread]; exact fun u hu => Option.some.inj hu ▸ hspace)
      (by rw [hread, hlast]; exact fun u hu => Option.some.inj hu ▸ hspace)
    rw [htrim, hread, (cleanArg_quoted hq _).2.2, isFromAIArgumentType_dropEscapes hspells hw,
      escapesCode, hmid]

/-! ## One record -/

/-- A record is read when its type is one. -/
theorem exists_readCall_iff {str argsString : JsString}
    (h : scanArguments none 1 str = some argsString) :
    (∃ record, readCall str = .ok record) ↔ isFromAIArgumentType
      (((splitArguments none false [] argsString).map cleanArg)[2]?.getD (units "string")) = true := by
  have hparse : (∃ record, readCall str = .ok record) ↔
      ∃ record, parseArguments argsString = .ok record := by
    simp only [readCall, h]
    cases parseArguments argsString with
    | error error =>
      refine iff_of_false ?_ ?_ <;> rintro ⟨record, hrecord⟩ <;> cases hrecord
    | ok parsedArgs => exact iff_of_true ⟨_, rfl⟩ ⟨_, rfl⟩
  rw [hparse]
  unfold parseArguments
  dsimp only
  split
  · rename_i htype
    exact iff_of_true ⟨_, rfl⟩ htype
  · rename_i htype
    refine iff_of_false ?_ htype
    rintro ⟨record, hrecord⟩
    cases hrecord

/-- The type that is read is none only where white space stands in its place or an escape is a
code. -/
theorem isFromAIArgumentType_readType {segments : List (List Piece)}
    (hquotes : ∀ segment ∈ segments, ∀ q text, .quoted q text ∈ segment → isQuote q = true)
    (htype : ∀ third ∈ thirdArgument segments, NamesType third) :
    isFromAIArgumentType (readType segments) = true ↔
      blankThird segments = false ∧ (thirdArgument segments).any escapesCode = false := by
  have hstring : isFromAIArgumentType (units "string") = true := by decide
  have hdrop : ∀ segment ∈ segments.drop 2, ∀ q text, .quoted q text ∈ segment → isQuote q = true :=
    fun segment hmem => hquotes segment (List.mem_of_mem_drop hmem)
  unfold thirdArgument at htype ⊢
  unfold readType blankThird
  generalize segments.drop 2 = later at hdrop htype ⊢
  match later with
  | [] => exact iff_of_true hstring ⟨rfl, rfl⟩
  | [last] =>
    have hread := hdrop last List.mem_cons_self
    dsimp only at htype ⊢
    by_cases hblank : trimBy Piece.isBlank last = []
    · rw [if_pos hblank, Option.any_none, and_iff_left rfl, hblank]
      by_cases hnil : last = []
      · subst hnil
        exact iff_of_true hstring rfl
      · -- white space is read as an argument, and the empty text is no type
        have htrim : trim (readOf last) = [] :=
          trim_readOf hblank (fun u hu => by cases hu) fun u hu => by cases hu
        rw [readSegments, if_neg (readOf_ne_nil hnil), htrim]
        refine iff_of_false (by decide) ?_
        simp [hnil]
    · rw [if_neg hblank] at htype ⊢
      have hnil : last ≠ [] := by
        rintro rfl
        exact hblank rfl
      rw [readSegments, if_neg (readOf_ne_nil hnil), List.head?_cons, Option.map_some,
        Option.getD_some, isFromAIArgumentType_read (htype last rfl) hread]
      simp [hblank]
  | segment :: next :: rest =>
    have hthird := isFromAIArgumentType_read (htype segment rfl) (hdrop segment List.mem_cons_self)
    rw [readSegments_cons (List.cons_ne_nil next rest), List.head?_cons, Option.map_some,
      Option.getD_some, hthird]
    simp

theorem exists_readCall_textOf_iff {pieces : List Piece}
    (h : ∀ piece ∈ pieces, piece.IsPassed) (after : JsString) :
    (∃ record, readCall (textOf pieces ++ codeUnit ')' :: after) = .ok record) ↔
      isFromAIArgumentType (readType (pieces.splitOnP isComma)) = true := by
  have hclose : scanArguments none 1 (codeUnit ')' :: after) = some [] := by
    rw [scanArguments, if_neg (by decide), if_neg (by decide), if_pos rfl, scanArguments]
    rfl
  have hscan := passes_textOf h 0 (codeUnit ')' :: after)
  rw [hclose, Option.map_some, List.append_nil] at hscan
  rw [exists_readCall_iff hscan, splitArguments_textOf h, List.getElem?_map, readSegments_getElem?,
    readType]

/-- Blank pieces before the first argument change neither the type nor the calls. -/
theorem readType_dropWhile (pieces : List Piece) :
    readType ((pieces.dropWhile Piece.isBlank).splitOnP isComma) =
      readType (pieces.splitOnP isComma) := by
  have hcomma : ∀ piece : Piece, piece.isBlank = true → isComma piece = false := by
    intro piece hblank
    refine decide_eq_false ?_
    rintro rfl
    exact absurd hblank (by decide)
  have hdrop : ∀ segments : List (List Piece), segments.drop 2 = segments.tail.drop 1 := by
    intro segments
    rw [← List.drop_one, List.drop_drop]
  rw [readType, readType, hdrop, hdrop, tail_splitOnP_dropWhile hcomma]

theorem any_quotesCall_dropWhile (pieces : List Piece) :
    (pieces.dropWhile Piece.isBlank).any Piece.quotesCall = pieces.any Piece.quotesCall := by
  induction pieces with
  | nil => rfl
  | cons piece pieces ih =>
    by_cases hblank : piece.isBlank = true
    · rw [List.dropWhile_cons_of_pos hblank, ih, List.any_cons,
        Piece.quotesCall_of_isBlank hblank, Bool.false_or]
    · rw [List.dropWhile_cons_of_neg hblank]

/-- Of what is accepted with a type as the third argument, one record is read when no quoted text
has a call in it, no white space stands in the place of a third argument and no escape in the type
is a code. -/
theorem extractFromAICalls_agrees_iff {expr : JsString} (h : isFromAIOnlyExpression expr = true)
    (htype : ∀ third ∈ thirdArgument (argumentSegments expr), NamesType third) :
    (∃ record, extractFromAICalls expr = .ok [record]) ↔
      (argumentPieces expr).any Piece.quotesCall = false ∧
        blankThird (argumentSegments expr) = false ∧
        (thirdArgument (argumentSegments expr)).any escapesCode = false := by
  obtain ⟨hcall, hpassed⟩ := isFromAIOnlyExpression_spec h
  obtain ⟨after, hafter, hsearch⟩ := searchFromAI_of_isCallOf hcall
  have hquotes : ∀ q text, .quoted q text ∈ argumentPieces expr → isQuote q = true :=
    fun q text hmem => (hpassed _ hmem).1
  have hpassed' : ∀ piece ∈ (argumentPieces expr).dropWhile Piece.isBlank, piece.IsPassed :=
    fun piece hmem => hpassed piece ((List.dropWhile_suffix _).subset hmem)
  have hclose : codeUnit '$' ∉ codeUnit ')' :: after :=
    List.not_mem_cons_of_ne_of_not_mem (by decide) hafter
  have hsegments : ∀ segment ∈ argumentSegments expr, ∀ q text, .quoted q text ∈ segment →
      isQuote q = true :=
    fun segment hsegment q text hmem => hquotes q text (mem_of_mem_splitOnP hsegment hmem)
  rw [dropWhile_textOf (by decide) after _ hquotes] at hsearch
  simp only [extractFromAICalls_eq_singleton_iff hsearch, exists_and_right]
  rw [exists_readCall_textOf_iff hpassed', readType_dropWhile, hasCall_textOf hpassed',
    any_quotesCall_dropWhile, hasCall_of_not_mem_dollar hclose, Bool.or_false, ← argumentSegments,
    isFromAIArgumentType_readType hsegments htype, and_comm]

theorem extractFromAICalls_agrees_iff_number :
    ∃ record, extractFromAICalls (units "=\x7b\x7b $fromAI('n', 'how many', 'number') \x7d\x7d") =
      .ok [record] := by
  have haccepted : isFromAIOnlyExpression
      (units "=\x7b\x7b $fromAI('n', 'how many', 'number') \x7d\x7d") = true := by
    decide +kernel
  have hthird : thirdArgument (argumentSegments
      (units "=\x7b\x7b $fromAI('n', 'how many', 'number') \x7d\x7d")) =
        some [.unit (codeUnit ' '), .quoted (codeUnit '\'') (units "number")] := by
    decide +kernel
  refine (extractFromAICalls_agrees_iff haccepted fun third hmem => ?_).mpr (by decide +kernel)
  obtain rfl := Option.some.inj (hthird.symm.trans hmem)
  exact ⟨units "number", by decide, .inr ⟨codeUnit '\'', units "number", by decide,
    spells_of_not_mem (by decide)⟩⟩

/-- A call in a quoted text is read as well. -/
theorem extractFromAICalls_not_agrees :
    ¬∀ expr : JsString, isFromAIOnlyExpression expr = true →
      (∀ third ∈ thirdArgument (argumentSegments expr), NamesType third) →
        ∃ record, extractFromAICalls expr = .ok [record] := by
  intro h
  have haccepted : isFromAIOnlyExpression (units "=$fromAI('use $fromAI(x) here')") = true := by
    decide +kernel
  have hthird : thirdArgument (argumentSegments (units "=$fromAI('use $fromAI(x) here')")) = none := by
    decide +kernel
  have hsearch : searchFromAI (units "=$fromAI('use $fromAI(x) here')") =
      some (units "'use $fromAI(x) here')") := by
    decide +kernel
  have hcall : hasCall (units "'use $fromAI(x) here')") = true := by decide +kernel
  obtain ⟨record, hrecord⟩ := h _ haccepted (by rw [hthird]; exact fun third hmem => by cases hmem)
  obtain ⟨-, hnone⟩ := (extractFromAICalls_eq_singleton_iff hsearch record).mp hrecord
  rw [hcall] at hnone
  cases hnone

end N8n
