import Mathlib.Data.List.Induction
import N8n.Webhooks.WebhookService

/-!
# Dynamic webhooks

`findDynamicWebhook` looks for a webhook whose path has parameters. It takes the segments of the
request as a set, so a webhook fits if its static segments occur anywhere in the request. Of those
that fit it finds one with the most static segments (`findDynamicWebhook_spec`).

It routes by position, in whatever order the rows come, exactly if each webhook that fits but does
not match by position has fewer static segments than one that matches
(`routesByPosition_iff`).
-/

namespace N8n

def splitPath (path : String) : List (List Char) := path.toList.splitOn '/'

def isParameter (segment : List Char) : Bool := segment.head? = some ':'

namespace WebhookEntity

def segments (webhook : WebhookEntity) : List (List Char) := splitPath webhook.webhookPath

def staticSegments (webhook : WebhookEntity) : List (List Char) :=
  webhook.segments.filter (!isParameter ·)

/-- All static segments are in the set. -/
def fits (webhook : WebhookEntity) (requestSegments : List (List Char)) : Bool :=
  webhook.staticSegments.all (· ∈ requestSegments)

/-- At each position there is a parameter or the segment of the request. -/
def MatchesByPosition (webhook : WebhookEntity) (otherSegments : List (List Char)) : Prop :=
  List.Forall₂ (fun segment other => isParameter segment = true ∨ segment = other) webhook.segments
    otherSegments

/-- The row has the given id, method and length. A method that is not given is not compared. -/
def isFoundBy (webhookId : List Char) (method : Option IHttpRequestMethods) (pathLength : ℕ)
    (webhook : WebhookEntity) : Bool :=
  webhook.webhookId.map String.toList = some webhookId ∧ method.all (webhook.method = ·) ∧
    webhook.pathLength = some pathLength

end WebhookEntity

/-- The accumulator of the search. -/
structure BestMatch where
  webhook : Option WebhookEntity := none
  maxMatches : ℕ := 0

def BestMatch.next (requestSegments : List (List Char)) (acc : BestMatch) (dw : WebhookEntity) :
    BestMatch :=
  if dw.fits requestSegments ∧ acc.maxMatches < dw.staticSegments.length then
    { webhook := some dw, maxMatches := dw.staticSegments.length }
  else if dw.staticSegments.length = 0 ∧ acc.webhook = none then
    -- a path of parameters only matches anything
    { acc with webhook := some dw }
  else acc

/-- The search among the rows of the table, in the order in which they come. -/
def findDynamicWebhook (rows : List WebhookEntity) (path : String)
    (method : Option IHttpRequestMethods) : Option WebhookEntity :=
  match splitPath path with
  | [] => none
  | uuidSegment :: otherSegments =>
    let dynamicWebhooks := rows.filter (·.isFoundBy uuidSegment method otherSegments.length)
    if dynamicWebhooks.length = 0 then none
    else (dynamicWebhooks.foldl (BestMatch.next otherSegments) {}).webhook

/-! ## The best match -/

variable {requestSegments : List (List Char)} {acc : BestMatch} {rows : List WebhookEntity}

/-- What the search has found of the rows it has seen. -/
structure BestMatch.Found (requestSegments : List (List Char)) (seen : List WebhookEntity)
    (acc : BestMatch) : Prop where
  maxMatches_eq : acc.maxMatches = acc.webhook.elim 0 (·.staticSegments.length)
  mem : ∀ webhook ∈ acc.webhook, webhook ∈ seen ∧ webhook.fits requestSegments = true
  most : ∀ webhook ∈ seen, webhook.fits requestSegments = true →
    acc.webhook ≠ none ∧ webhook.staticSegments.length ≤ acc.maxMatches

theorem BestMatch.found_nil : BestMatch.Found requestSegments [] {} :=
  ⟨rfl, nofun, nofun⟩

theorem BestMatch.found_next {seen : List WebhookEntity} (h : acc.Found requestSegments seen)
    (dw : WebhookEntity) : (acc.next requestSegments dw).Found requestSegments (seen ++ [dw]) := by
  have hseen : ∀ webhook ∈ acc.webhook, webhook ∈ seen ++ [dw] ∧
      webhook.fits requestSegments = true := fun webhook hwebhook =>
    ⟨List.mem_append_left _ (h.mem webhook hwebhook).1, (h.mem webhook hwebhook).2⟩
  rw [next]
  split
  case isTrue hbetter =>
    refine ⟨rfl, ?_, ?_⟩
    · intro webhook hwebhook
      obtain rfl := Option.some.inj hwebhook
      exact ⟨by simp, hbetter.1⟩
    · intro webhook hmem hfits
      refine ⟨Option.some_ne_none _, ?_⟩
      rcases List.mem_append.mp hmem with hmem | hmem
      · exact (h.most webhook hmem hfits).2.trans hbetter.2.le
      · rw [List.mem_singleton.mp hmem]
  case isFalse hworse =>
    split
    case isTrue hfirst =>
      have hfits : dw.fits requestSegments = true := by
        rw [WebhookEntity.fits, List.length_eq_zero_iff.mp hfirst.1]
        rfl
      have hzero : acc.maxMatches = 0 := by
        rw [h.maxMatches_eq, hfirst.2]
        rfl
      refine ⟨by simp [hzero, hfirst.1], ?_, ?_⟩
      · intro webhook hwebhook
        obtain rfl := Option.some.inj hwebhook
        exact ⟨by simp, hfits⟩
      · intro webhook hmem hfits'
        refine ⟨Option.some_ne_none _, ?_⟩
        rcases List.mem_append.mp hmem with hmem | hmem
        · exact (h.most webhook hmem hfits').2
        · rw [List.mem_singleton.mp hmem, hfirst.1]
          exact Nat.zero_le _
    case isFalse hlater =>
      refine ⟨h.maxMatches_eq, hseen, ?_⟩
      intro webhook hmem hfits
      rcases List.mem_append.mp hmem with hmem | hmem
      · exact h.most webhook hmem hfits
      · obtain rfl := List.mem_singleton.mp hmem
        have hle : webhook.staticSegments.length ≤ acc.maxMatches :=
          Nat.le_of_not_lt fun hlt => hworse ⟨hfits, hlt⟩
        refine ⟨fun hnone => hlater ⟨?_, hnone⟩, hle⟩
        rw [h.maxMatches_eq, hnone] at hle
        exact Nat.le_zero.mp hle

theorem BestMatch.found_foldl (rows : List WebhookEntity) :
    BestMatch.Found requestSegments rows (rows.foldl (BestMatch.next requestSegments) {}) := by
  induction rows using List.reverseRecOn with
  | nil => exact found_nil
  | append_singleton rows dw ih =>
    rw [List.foldl_append]
    exact found_next ih dw

theorem BestMatch.maxMatches_le_next (acc : BestMatch) (dw : WebhookEntity) :
    acc.maxMatches ≤ (acc.next requestSegments dw).maxMatches := by
  rw [next]
  split
  · exact Nat.le_of_lt (And.right ‹_›)
  · split
    · exact le_rfl
    · exact le_rfl

theorem BestMatch.maxMatches_le_foldl (rows : List WebhookEntity) (acc : BestMatch) :
    acc.maxMatches ≤ (rows.foldl (BestMatch.next requestSegments) acc).maxMatches := by
  induction rows generalizing acc with
  | nil => exact le_rfl
  | cons dw rows ih => exact (acc.maxMatches_le_next dw).trans (ih _)

/-- What was found stays, unless a row with more static segments comes. -/
theorem BestMatch.foldl_stays {webhook : WebhookEntity} (rows : List WebhookEntity)
    (h : acc.webhook = some webhook) :
    (rows.foldl (BestMatch.next requestSegments) acc).webhook = some webhook ∨
      acc.maxMatches < (rows.foldl (BestMatch.next requestSegments) acc).maxMatches := by
  induction rows generalizing acc with
  | nil => exact .inl h
  | cons dw rows ih =>
    rw [List.foldl_cons]
    by_cases hbetter : dw.fits requestSegments = true ∧ acc.maxMatches < dw.staticSegments.length
    · refine .inr (lt_of_lt_of_le hbetter.2 (le_trans ?_ (maxMatches_le_foldl rows _)))
      rw [next, if_pos hbetter]
    · have hnext : acc.next requestSegments dw = acc := by
        rw [next, if_neg hbetter, if_neg (by simp [h])]
      rw [hnext]
      exact ih h

/-! ## Routing -/

variable {path : String} {method : Option IHttpRequestMethods} {uuidSegment : List Char}
  {otherSegments : List (List Char)} {webhook : WebhookEntity}

/-- The segments of the request, the id apart. -/
def requestOf (path : String) : List Char × List (List Char) :=
  ((splitPath path).head?.getD [], (splitPath path).tail)

/-- A row that the table gives for the request. -/
def IsCandidate (rows : List WebhookEntity) (path : String) (method : Option IHttpRequestMethods)
    (webhook : WebhookEntity) : Prop :=
  webhook ∈ rows ∧ webhook.isFoundBy (requestOf path).1 method (requestOf path).2.length = true

/-- A webhook that is found matches by position, no other that does has more static segments, and
one is found if one does. -/
structure RoutesInOrder (rows : List WebhookEntity) (path : String)
    (method : Option IHttpRequestMethods) : Prop where
  matches_found : ∀ webhook ∈ findDynamicWebhook rows path method,
    webhook.MatchesByPosition (requestOf path).2
  most_static : ∀ webhook ∈ findDynamicWebhook rows path method, ∀ other,
    IsCandidate rows path method other → other.MatchesByPosition (requestOf path).2 →
      other.staticSegments.length ≤ webhook.staticSegments.length
  isSome_of_matches : ∀ webhook, IsCandidate rows path method webhook →
    webhook.MatchesByPosition (requestOf path).2 → (findDynamicWebhook rows path method).isSome

/-- The rows may come in any order. -/
def RoutesByPosition (rows : List WebhookEntity) (path : String)
    (method : Option IHttpRequestMethods) : Prop :=
  ∀ rows', rows'.Perm rows → RoutesInOrder rows' path method

theorem splitPath_ne_nil (path : String) : splitPath path ≠ [] := List.splitOn_ne_nil _ _

theorem findDynamicWebhook_eq (rows : List WebhookEntity) (path : String)
    (method : Option IHttpRequestMethods) :
    findDynamicWebhook rows path method =
      ((rows.filter (·.isFoundBy (requestOf path).1 method (requestOf path).2.length)).foldl
        (BestMatch.next (requestOf path).2) {}).webhook := by
  obtain ⟨uuidSegment, otherSegments, hsplit⟩ := List.exists_cons_of_ne_nil (splitPath_ne_nil path)
  rw [findDynamicWebhook, requestOf, hsplit]
  dsimp only [List.head?_cons, Option.getD_some, List.tail_cons]
  split
  case isTrue hempty =>
    rw [List.length_eq_zero_iff.mp hempty]
    rfl
  case isFalse => rfl

theorem isCandidate_iff : IsCandidate rows path method webhook ↔
    webhook ∈ rows.filter (·.isFoundBy (requestOf path).1 method (requestOf path).2.length) :=
  List.mem_filter.symm

/-- What is found fits, with the most static segments of those that fit. -/
theorem findDynamicWebhook_spec (h : webhook ∈ findDynamicWebhook rows path method) :
    IsCandidate rows path method webhook ∧ webhook.fits (requestOf path).2 = true ∧
      ∀ other, IsCandidate rows path method other → other.fits (requestOf path).2 = true →
        other.staticSegments.length ≤ webhook.staticSegments.length := by
  rw [findDynamicWebhook_eq] at h
  have hfound := @BestMatch.found_foldl (requestOf path).2
    (rows.filter (·.isFoundBy (requestOf path).1 method (requestOf path).2.length))
  obtain ⟨hmem, hfits⟩ := hfound.mem webhook h
  refine ⟨isCandidate_iff.mpr hmem, hfits, fun other hother hfits' => ?_⟩
  have hmost := (hfound.most other (isCandidate_iff.mp hother) hfits').2
  rwa [hfound.maxMatches_eq, Option.mem_def.mp h] at hmost

theorem isSome_findDynamicWebhook (h : IsCandidate rows path method webhook)
    (hfits : webhook.fits (requestOf path).2 = true) :
    (findDynamicWebhook rows path method).isSome = true := by
  rw [findDynamicWebhook_eq, Option.isSome_iff_ne_none]
  exact ((BestMatch.found_foldl _).most webhook (isCandidate_iff.mp h) hfits).1

theorem isParameter_or_mem {segments : List (List Char)}
    (h : List.Forall₂ (fun segment other => isParameter segment = true ∨ segment = other) segments
      otherSegments) :
    ∀ segment ∈ segments, isParameter segment = true ∨ segment ∈ otherSegments := by
  induction h with
  | nil => exact nofun
  | cons hsame _ ih =>
    refine List.forall_mem_cons.mpr ⟨?_, fun segment hsegment => ?_⟩
    · rcases hsame with hparameter | rfl
      · exact .inl hparameter
      · exact .inr List.mem_cons_self
    · exact (ih segment hsegment).imp_right (List.mem_cons_of_mem _)

/-- A webhook that matches by position fits. -/
theorem fits_of_matchesByPosition (h : webhook.MatchesByPosition otherSegments) :
    webhook.fits otherSegments = true := by
  rw [WebhookEntity.fits, List.all_eq_true]
  intro segment hsegment
  obtain ⟨hsegment, hstatic⟩ := List.mem_filter.mp hsegment
  rcases isParameter_or_mem h segment hsegment with hparameter | hother
  · rw [hparameter] at hstatic
    cases hstatic
  · exact decide_eq_true hother

/-- A row that comes first is found if none with more static segments fits. -/
theorem findDynamicWebhook_cons (h : webhook.isFoundBy (requestOf path).1 method
    (requestOf path).2.length = true) (hfits : webhook.fits (requestOf path).2 = true) :
    findDynamicWebhook (webhook :: rows) path method = some webhook ∨
      ∃ other ∈ findDynamicWebhook (webhook :: rows) path method,
        webhook.staticSegments.length < other.staticSegments.length := by
  have hfirst : BestMatch.next (requestOf path).2 {} webhook =
      ⟨some webhook, webhook.staticSegments.length⟩ := by
    rw [BestMatch.next]
    split
    case isTrue => rfl
    case isFalse hnone =>
      have hzero : webhook.staticSegments.length = 0 :=
        Nat.eq_zero_of_not_pos fun hpos => hnone ⟨hfits, hpos⟩
      rw [if_pos ⟨hzero, rfl⟩, hzero]
  rw [findDynamicWebhook_eq, List.filter_cons_of_pos h]
  have hfound := @BestMatch.found_foldl (requestOf path).2
    (webhook :: rows.filter (·.isFoundBy (requestOf path).1 method (requestOf path).2.length))
  rw [List.foldl_cons, hfirst] at hfound ⊢
  have hstays := @BestMatch.foldl_stays (requestOf path).2 ⟨some webhook, webhook.staticSegments.length⟩
    webhook (rows.filter (·.isFoundBy (requestOf path).1 method (requestOf path).2.length)) rfl
  rcases hstays with hstays | hmore
  · exact .inl hstays
  · rw [hfound.maxMatches_eq] at hmore
    obtain ⟨hsome, -⟩ := hfound.most webhook List.mem_cons_self hfits
    obtain ⟨other, hother⟩ := Option.ne_none_iff_exists'.mp hsome
    rw [hother] at hmore
    exact .inr ⟨other, hother, hmore⟩

theorem isCandidate_perm {rows' : List WebhookEntity} (h : rows'.Perm rows) :
    IsCandidate rows' path method webhook ↔ IsCandidate rows path method webhook :=
  and_congr_left fun _ => h.mem_iff

/-- The rows route by position exactly if each webhook that fits without matching has fewer static
segments than one that matches. -/
theorem routesByPosition_iff (rows : List WebhookEntity) (path : String)
    (method : Option IHttpRequestMethods) :
    RoutesByPosition rows path method ↔
      ∀ webhook, IsCandidate rows path method webhook → webhook.fits (requestOf path).2 = true →
        ¬webhook.MatchesByPosition (requestOf path).2 →
        ∃ other, IsCandidate rows path method other ∧ other.MatchesByPosition (requestOf path).2 ∧
          webhook.staticSegments.length < other.staticSegments.length := by
  constructor
  · intro hroutes webhook hcandidate hfits hmatches
    -- the webhook may come first, and then only one with more static segments is found instead
    have hperm : (webhook :: rows.erase webhook).Perm rows :=
      (List.perm_cons_erase hcandidate.1).symm
    have horder := hroutes _ hperm
    rcases findDynamicWebhook_cons hcandidate.2 hfits with hfound | ⟨other, hother, hmore⟩
    · exact absurd (horder.matches_found webhook hfound) hmatches
    · have hspec := (findDynamicWebhook_spec hother).1
      exact ⟨other, (isCandidate_perm hperm).mp hspec, horder.matches_found other hother, hmore⟩
  · intro hmisplaced rows' hperm
    refine ⟨fun webhook hfound => ?_, fun webhook hfound other hother hmatches => ?_,
      fun webhook hcandidate hmatches => ?_⟩
    · obtain ⟨hcandidate, hfits, hmost⟩ := findDynamicWebhook_spec hfound
      by_contra hmatches
      obtain ⟨other, hother, hmatches', hmore⟩ :=
        hmisplaced webhook ((isCandidate_perm hperm).mp hcandidate) hfits hmatches
      have hle := hmost other ((isCandidate_perm hperm).mpr hother) (fits_of_matchesByPosition hmatches')
      omega
    · exact (findDynamicWebhook_spec hfound).2.2 other hother (fits_of_matchesByPosition hmatches)
    · exact isSome_findDynamicWebhook hcandidate (fits_of_matchesByPosition hmatches)

/-- The path `user/:id`. -/
def userWebhook : WebhookEntity where
  workflowId := "1"
  webhookPath := "user/:id"
  method := .GET
  node := "Webhook"
  webhookId := some "uuid"
  pathLength := some 2

/-- The request has its segments the other way round. -/
theorem not_routesByPosition_swapped : ¬RoutesByPosition [userWebhook] "uuid/42/user" (some .GET) := by
  intro h
  have hfound : findDynamicWebhook [userWebhook] "uuid/42/user" (some .GET) = some userWebhook := by
    decide
  have hmatches := (h _ (List.Perm.refl _)).matches_found userWebhook hfound
  rw [WebhookEntity.MatchesByPosition, show userWebhook.segments = ["user".toList, ":id".toList] by decide,
    show (requestOf "uuid/42/user").2 = ["42".toList, "user".toList] by decide] at hmatches
  cases hmatches with
  | cons hfirst => exact absurd hfirst (by decide)

end N8n
