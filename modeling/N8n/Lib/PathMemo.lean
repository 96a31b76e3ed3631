import N8n.Lib.OrderedMap
import Mathlib.Algebra.Order.Ring.Int
import Mathlib.Algebra.Order.Ring.Nat
import Mathlib.Data.List.Perm.Subperm
import Mathlib.Data.Nat.Find

/-!
# Reachability with a memo that forgets the path

`collect` lists the nodes that can be reached from a node by at most `depth` steps, or by
any number if `depth` is negative. It skips the nodes on the current path, but remembers
what it found by node and remaining depth only, so what was found on one path is used on
others.

Nothing is lost by that (`collect_spec`). With a bound, a node at distance `i` from the
root is looked for with `depth - i` steps left, and the steps of a shortest path never lead
back to the current path. Without a bound every node is expanded once, and what it skipped
is on the path to it, so the root collects it.

`collect_rule` is the rule for properties of the calls : one case for each way a call can
end.
-/

namespace Lib

variable {V : Type*} [DecidableEq V]

/-! ## Steps -/

/-- One step : `none` for a node that has no entry at all. -/
def StepTo (succ : V → Option (List V)) (a b : V) : Prop := ∃ l, succ a = some l ∧ b ∈ l

/-- `k` steps. -/
def Steps (succ : V → Option (List V)) : ℕ → V → V → Prop
  | 0, a, b => a = b
  | k + 1, a, b => ∃ c, StepTo succ a c ∧ Steps succ k c b

variable {succ : V → Option (List V)}

omit [DecidableEq V] in
theorem Steps.append {j k : ℕ} {a b c : V} (h : Steps succ j a b) (h' : Steps succ k b c) :
    Steps succ (j + k) a c := by
  induction j generalizing a with
  | zero =>
    obtain rfl : a = b := h
    rwa [Nat.zero_add]
  | succ j ih =>
    obtain ⟨d, hd, h⟩ := h
    rw [Nat.succ_add_eq_add_succ]
    exact ⟨d, hd, ih h⟩

omit [DecidableEq V] in
theorem StepTo.steps {a b : V} (h : StepTo succ a b) : Steps succ 1 a b := ⟨b, h, rfl⟩

/-- The number of steps is within the bound, if there is one. -/
def Within (depth : ℤ) (k : ℕ) : Prop := 0 ≤ depth → (k : ℤ) ≤ depth

/-! ## The search -/

/-- Put the element in front; if it is in the list already, move it there. -/
def toFront (a : V) (l : List V) : List V := a :: l.erase a

/-- What was found, by remaining depth and node. -/
abbrev PathMemo (V : Type*) := OrderedMap (ℤ × V) (List V)

/-- The depth that is left after a step. -/
def nextDepth (depth : ℤ) : ℤ := if depth = -1 then depth else depth - 1

/-- Look for what is below a successor, unless it is on the path. -/
def followNext (call : V → PathMemo V → List V × PathMemo V) (path : List V)
    (acc : List V × PathMemo V) (w : V) : List V × PathMemo V :=
  if w ∈ path then acc
  else
    let (below, memo) := call w acc.2
    (below.foldr toFront (toFront w acc.1), memo)

/-- The search from a node, one recursion level for each node on the current path. -/
def collect (succ : V → Option (List V)) :
    ℕ → V → ℤ → List V → PathMemo V → List V × PathMemo V
  | 0, _, _, _, memo => ([], memo)
  | fuel + 1, v, depth, path, memo =>
    if depth = 0 then ([], memo)
    else match succ v with
    | none => ([], memo)
    | some next =>
      match memo.get? (depth, v) with
      | some cached => (cached, memo)
      | none =>
        let (found, memo) := next.foldl (followNext
          (fun w memo => collect succ fuel w (nextDepth depth) (v :: path) memo) (v :: path))
          ([], memo)
        (found, memo.set (depth, v) found)

theorem mem_toFront {a b : V} {l : List V} : b ∈ toFront a l ↔ b = a ∨ b ∈ l := by
  by_cases h : b = a <;> simp [toFront, List.mem_erase_of_ne, h]

theorem mem_foldr_toFront {b : V} {below l : List V} :
    b ∈ below.foldr toFront l ↔ b ∈ below ∨ b ∈ l := by
  induction below with
  | nil => simp
  | cons a below ih => rw [List.foldr_cons, mem_toFront, ih, List.mem_cons, or_assoc]

theorem nodup_toFront {a : V} {l : List V} (h : l.Nodup) : (toFront a l).Nodup :=
  List.nodup_cons.mpr ⟨h.not_mem_erase, h.erase a⟩

theorem nodup_foldr_toFront {below l : List V} (h : l.Nodup) : (below.foldr toFront l).Nodup := by
  induction below with
  | nil => exact h
  | cons a below ih => exact nodup_toFront ih

/-! ## The rule -/

/-- A property of a call : the node, the depth, the path, the memo before, the nodes found
and the memo after. -/
abbrev CallProperty (V : Type*) := V → ℤ → List V → PathMemo V → List V → PathMemo V → Prop

/-- The loop over the successors, whose calls have the property. -/
inductive Expands (Q : CallProperty V) (depth : ℤ) (path : List V) :
    List V → List V → PathMemo V → List V → PathMemo V → Prop
  | nil {found : List V} {memo : PathMemo V} : Expands Q depth path [] found memo found memo
  | skip {w : V} {next found found' : List V} {memo memo' : PathMemo V} (hw : w ∈ path)
      (h : Expands Q depth path next found memo found' memo') :
      Expands Q depth path (w :: next) found memo found' memo'
  | follow {w : V} {next found below found' : List V} {memo memo₁ memo' : PathMemo V}
      (hw : w ∉ path) (hcall : Q w depth path memo below memo₁)
      (h : Expands Q depth path next (below.foldr toFront (toFront w found)) memo₁ found' memo') :
      Expands Q depth path (w :: next) found memo found' memo'

/-- The cases of a call : no depth is left, the node has no entry, it was expanded before, or
it is expanded now. -/
structure CallCases (succ : V → Option (List V)) (Q : CallProperty V) : Prop where
  zero : ∀ v path memo, Q v 0 path memo [] memo
  leaf : ∀ v depth path memo, succ v = none → Q v depth path memo [] memo
  cached : ∀ v depth path memo found, memo.get? (depth, v) = some found →
    Q v depth path memo found memo
  expand : ∀ v depth path memo next found memo', depth ≠ 0 → succ v = some next →
    v ∉ path → Expands Q (nextDepth depth) (v :: path) next [] memo found memo' →
    Q v depth path memo found (memo'.set (depth, v) found)

variable {depth : ℤ}

/-- The rule : the path has no node twice, so there is fuel for all of it. -/
theorem collect_rule {Q : CallProperty V} (hQ : CallCases succ Q) {dom : List V}
    (hdom : ∀ v, succ v ≠ none → v ∈ dom) {fuel : ℕ} {v : V} {path : List V} (hnodup : path.Nodup)
    (hpath : path ⊆ dom) (hv : v ∉ path) (hfuel : dom.length < fuel + path.length)
    (memo : PathMemo V) :
    Q v depth path memo (collect succ fuel v depth path memo).1
      (collect succ fuel v depth path memo).2 := by
  induction fuel generalizing v depth path memo with
  | zero =>
    have := (hnodup.subperm hpath).length_le
    omega
  | succ fuel ih =>
    unfold collect
    by_cases hzero : depth = 0
    · rw [if_pos hzero]
      exact hzero ▸ hQ.zero v path memo
    rw [if_neg hzero]
    cases hsucc : succ v with
    | none => exact hQ.leaf v depth path memo hsucc
    | some next =>
      cases hmemo : memo.get? (depth, v) with
      | some cached => exact hQ.cached v depth path memo cached hmemo
      | none =>
        have hvdom : v ∈ dom := hdom v (by simp [hsucc])
        have hloop : ∀ (next : List V) (acc : List V × PathMemo V),
            Expands Q (nextDepth depth) (v :: path) next acc.1 acc.2
              (next.foldl (followNext (fun w memo =>
                collect succ fuel w (nextDepth depth) (v :: path) memo) (v :: path)) acc).1
              (next.foldl (followNext (fun w memo =>
                collect succ fuel w (nextDepth depth) (v :: path) memo) (v :: path)) acc).2 := by
          intro next
          induction next with
          | nil => exact fun acc => .nil
          | cons w next ihnext =>
            intro acc
            rw [List.foldl_cons]
            by_cases hw : w ∈ v :: path
            · rw [followNext, if_pos hw]
              exact .skip hw (ihnext acc)
            · have hcall : Q w (nextDepth depth) (v :: path) acc.2 _ _ :=
                ih (List.nodup_cons.mpr ⟨hv, hnodup⟩) (List.cons_subset.mpr ⟨hvdom, hpath⟩) hw
                  (by rw [List.length_cons]; omega) acc.2
              rw [followNext, if_neg hw]
              rcases hres : collect succ fuel w (nextDepth depth) (v :: path) acc.2 with
                ⟨below, memo₁⟩
              rw [hres] at hcall
              exact .follow hw hcall (ihnext (below.foldr toFront (toFront w acc.1), memo₁))
        exact hQ.expand v depth path memo next _ _ hzero hsucc hv (hloop next ([], memo))

/-! ## What is found can be reached -/

/-- The list has no node twice and not the root, and its nodes can be reached. -/
structure Found (succ : V → Option (List V)) (root : V) (depth : ℤ) (v : V) (found : List V) :
    Prop where
  nodup : found.Nodup
  root_not_mem : root ∉ found
  reached : ∀ w ∈ found, ∃ k, Within depth k ∧ Steps succ k v w

omit [DecidableEq V] in
theorem Found.nil {root : V} {v : V} : Found succ root depth v [] :=
  ⟨List.nodup_nil, by simp, by simp⟩

theorem within_nextDepth {k : ℕ} (hdepth : depth ≠ 0) (h : Within (nextDepth depth) k) :
    Within depth (1 + k) := by
  unfold Within nextDepth at *
  split_ifs at h <;> omega

/-- Every list in the memo is right. -/
def AllFound (succ : V → Option (List V)) (root : V) (memo : PathMemo V) : Prop :=
  ∀ depth v found, memo.get? (depth, v) = some found → Found succ root depth v found

theorem AllFound.set {root : V} {memo : PathMemo V} (h : AllFound succ root memo) {v : V}
    {found : List V} (hfound : Found succ root depth v found) :
    AllFound succ root (memo.set (depth, v) found) := by
  intro depth' v' found' hget
  rw [OrderedMap.get?_set] at hget
  split_ifs at hget with heq
  · cases heq
    cases hget
    exact hfound
  · exact h depth' v' found' hget

/-- A call whose path leads back to the root finds only what can be reached. -/
def Sound (succ : V → Option (List V)) (root : V) : CallProperty V :=
  fun v depth path memo found memo' => root ∈ v :: path → AllFound succ root memo →
    Found succ root depth v found ∧ AllFound succ root memo'

theorem Expands.sound {root v : V} (hdepth : depth ≠ 0) {path next found found' : List V}
    {memo memo' : PathMemo V}
    (h : Expands (Sound succ root) (nextDepth depth) path next found memo found' memo')
    (hroot : root ∈ path) (hnext : ∀ w ∈ next, StepTo succ v w)
    (hfound : Found succ root depth v found) (hmemo : AllFound succ root memo) :
    Found succ root depth v found' ∧ AllFound succ root memo' := by
  induction h with
  | nil => exact ⟨hfound, hmemo⟩
  | skip _ _ ih => exact ih (fun w hw => hnext w (List.mem_cons_of_mem _ hw)) hfound hmemo
  | @follow w next found below found' memo memo₁ memo' hw hcall _ ih =>
    obtain ⟨hbelow, hmemo₁⟩ := hcall (List.mem_cons_of_mem _ hroot) hmemo
    have hstep := hnext w List.mem_cons_self
    refine ih (fun w hw => hnext w (List.mem_cons_of_mem _ hw))
      ⟨nodup_foldr_toFront (nodup_toFront hfound.nodup), ?_, fun x hx => ?_⟩ hmemo₁
    · rw [mem_foldr_toFront, mem_toFront, not_or, not_or]
      exact ⟨hbelow.root_not_mem, fun heq => hw (heq ▸ hroot), hfound.root_not_mem⟩
    · rw [mem_foldr_toFront, mem_toFront] at hx
      rcases hx with hx | rfl | hx
      · obtain ⟨k, hk, hsteps⟩ := hbelow.reached x hx
        exact ⟨1 + k, within_nextDepth hdepth hk, hstep.steps.append hsteps⟩
      · exact ⟨1, fun hnonneg => by omega, hstep.steps⟩
      · exact hfound.reached x hx

theorem callCases_sound (root : V) : CallCases succ (Sound succ root) where
  zero _ _ _ _ hmemo := ⟨.nil, hmemo⟩
  leaf _ _ _ _ _ _ hmemo := ⟨.nil, hmemo⟩
  cached v depth _ _ found hget _ hmemo := ⟨hmemo depth v found hget, hmemo⟩
  expand v depth path memo next found memo' hdepth hsucc _ hexpands hroot hmemo := by
    obtain ⟨hfound, hmemo'⟩ := hexpands.sound hdepth hroot
      (fun w hw => ⟨next, hsucc, hw⟩) .nil hmemo
    exact ⟨hfound, hmemo'.set hfound⟩

/-! ## Everything is found : with a bound -/

/-- `k` steps from the root lead to the node, and no fewer. -/
def Shortest (succ : V → Option (List V)) (root : V) (k : ℕ) (v : V) : Prop :=
  Steps succ k root v ∧ ∀ j, Steps succ j root v → k ≤ j

/-- A call for a node at as many steps from the root as are missing from the bound `d` finds
what lies further along shortest paths. -/
def FoundBeyond (succ : V → Option (List V)) (root : V) (d depth : ℤ) (v : V) (found : List V) :
    Prop :=
  ∀ i : ℕ, depth = d - i → Shortest succ root i v → ∀ m w, 1 ≤ m → Within depth m →
    Steps succ m v w → Shortest succ root (i + m) w → w ∈ found

/-- Nothing is missing from the lists in the memo. -/
def AllFoundBeyond (succ : V → Option (List V)) (root : V) (d : ℤ) (memo : PathMemo V) : Prop :=
  ∀ depth v found, memo.get? (depth, v) = some found → FoundBeyond succ root d depth v found

/-- A call finds what lies further along shortest paths, if the depth says how long the path
is, which starts at the root. -/
def Complete (succ : V → Option (List V)) (root : V) (d : ℤ) : CallProperty V :=
  fun v depth path memo found memo' => depth = d - path.length → depth ≠ -1 →
    (∀ q ∈ path, ∃ j < path.length, Steps succ j root q) → Steps succ path.length root v →
    AllFoundBeyond succ root d memo →
    FoundBeyond succ root d depth v found ∧ AllFoundBeyond succ root d memo'

theorem Expands.complete {root : V} {d : ℤ} {path next found found' : List V}
    {memo memo' : PathMemo V}
    (h : Expands (Complete succ root d) depth path next found memo found' memo')
    (hdepth : depth = d - path.length) (hne : depth ≠ -1)
    (hpath : ∀ q ∈ path, ∃ j < path.length, Steps succ j root q)
    (hnext : ∀ w ∈ next, Steps succ path.length root w) (hmemo : AllFoundBeyond succ root d memo) :
    found ⊆ found' ∧ AllFoundBeyond succ root d memo' ∧
      ∀ w ∈ next, Shortest succ root path.length w → w ∈ found' ∧
        ∀ m x, 1 ≤ m → Within depth m → Steps succ m w x → Shortest succ root (path.length + m) x →
          x ∈ found' := by
  induction h with
  | nil => exact ⟨List.Subset.refl _, hmemo, by simp⟩
  | @skip w next found found' memo memo' hw _ ih =>
    obtain ⟨hsub, hmemo', hall⟩ := ih (fun x hx => hnext x (List.mem_cons_of_mem _ hx)) hmemo
    refine ⟨hsub, hmemo', List.forall_mem_cons.mpr ⟨fun hshortest => ?_, hall⟩⟩
    -- what is on the path is nearer to the root
    obtain ⟨j, hj, hsteps⟩ := hpath w hw
    have := hshortest.2 j hsteps
    omega
  | @follow w next found below found' memo memo₁ memo' hw hcall _ ih =>
    obtain ⟨hbelow, hmemo₁⟩ := hcall hdepth hne hpath (hnext w List.mem_cons_self) hmemo
    obtain ⟨hsub, hmemo', hall⟩ := ih (fun x hx => hnext x (List.mem_cons_of_mem _ hx)) hmemo₁
    have hsub' : ∀ x, x ∈ below ∨ x = w ∨ x ∈ found → x ∈ found' := fun x hx =>
      hsub (by rwa [mem_foldr_toFront, mem_toFront])
    refine ⟨fun x hx => hsub' x (.inr (.inr hx)), hmemo',
      List.forall_mem_cons.mpr ⟨fun hshortest => ⟨hsub' w (.inr (.inl rfl)), ?_⟩, hall⟩⟩
    exact fun m x hm hwithin hsteps hx =>
      hsub' x (.inl (hbelow path.length hdepth hshortest m x hm hwithin hsteps hx))

omit [DecidableEq V] in
/-- The nodes on a shortest path are at their distance from the root. -/
theorem Shortest.next {root v w x : V} {i m : ℕ} (hv : Steps succ i root v) (hstep : StepTo succ v w)
    (hsteps : Steps succ m w x) (hx : Shortest succ root (i + (m + 1)) x) :
    Shortest succ root (i + 1) w := by
  refine ⟨hv.append hstep.steps, fun j hj => ?_⟩
  have := hx.2 _ (hj.append hsteps)
  omega

theorem callCases_complete (root : V) (d : ℤ) : CallCases succ (Complete succ root d) where
  zero v path memo _ _ _ _ hmemo := by
    refine ⟨fun i _ _ m w hm hwithin => ?_, hmemo⟩
    have := hwithin le_rfl
    omega
  leaf v depth path memo hsucc _ _ _ _ hmemo := by
    refine ⟨fun i _ _ m w hm _ hsteps => ?_, hmemo⟩
    obtain ⟨m, rfl⟩ := Nat.exists_eq_add_of_le' hm
    obtain ⟨x, ⟨l, hl, -⟩, -⟩ := hsteps
    rw [hsucc] at hl
    cases hl
  cached v depth path memo found hget _ _ _ _ hmemo := ⟨hmemo depth v found hget, hmemo⟩
  expand v depth path memo next found memo' hzero hsucc _ hexpands hdepth hne hpath hv hmemo := by
    have hnextDepth : nextDepth depth = depth - 1 := if_neg hne
    have hstep : ∀ w ∈ next, StepTo succ v w := fun w hw => ⟨next, hsucc, hw⟩
    obtain ⟨-, hmemo', hall⟩ := hexpands.complete
      (by rw [hnextDepth, hdepth, List.length_cons]; omega) (by omega)
      (List.forall_mem_cons.mpr ⟨⟨path.length, Nat.lt_succ_self _, hv⟩, fun q hq => by
        obtain ⟨j, hj, hsteps⟩ := hpath q hq
        exact ⟨j, Nat.lt_succ_of_lt hj, hsteps⟩⟩)
      (fun w hw => hv.append (hstep w hw).steps) hmemo
    have hfound : FoundBeyond succ root d depth v found := by
      intro i hi hshortest m x hm hwithin hsteps hx
      obtain rfl : i = path.length := by omega
      obtain ⟨m, rfl⟩ := Nat.exists_eq_add_of_le' hm
      obtain ⟨w, hvw, hwx⟩ := hsteps
      have hw : w ∈ next := by
        obtain ⟨l, hl, hmem⟩ := hvw
        rw [hsucc] at hl
        cases hl
        exact hmem
      obtain ⟨hself, hbeyond⟩ := hall w hw (hx.next hv hvw hwx)
      rcases Nat.eq_zero_or_pos m with rfl | hpos
      · obtain rfl : w = x := hwx
        exact hself
      · refine hbeyond m x hpos (fun hnonneg => ?_) hwx ?_
        · have := hwithin (by omega)
          omega
        · rwa [List.length_cons, Nat.add_right_comm, Nat.add_assoc]
    refine ⟨hfound, fun depth' v' found' hget => ?_⟩
    rw [OrderedMap.get?_set] at hget
    split_ifs at hget with heq
    · cases heq
      cases hget
      exact hfound
    · exact hmemo' depth' v' found' hget

/-! ## Everything is found : without a bound -/

/-- The node has been expanded, or cannot be. -/
def Done (succ : V → Option (List V)) (memo : PathMemo V) (v : V) : Prop :=
  memo.has (-1, v) ∨ succ v = none

/-- What is in the lists of the memo is done. -/
def ListsDone (succ : V → Option (List V)) (memo : PathMemo V) : Prop :=
  ∀ v found, memo.get? (-1, v) = some found → ∀ w ∈ found, Done succ memo w

/-- What one part of the search adds to the memo : nodes that are found, with all that they
lead to but for what is on the path. -/
structure Adds (succ : V → Option (List V)) (path found : List V) (memo memo' : PathMemo V) :
    Prop where
  keeps : ∀ v, memo.has (-1, v) → memo'.has (-1, v)
  lists : ListsDone succ memo'
  done : ∀ w ∈ found, Done succ memo' w
  closed : ∀ v, memo'.has (-1, v) → memo.has (-1, v) ∨
    v ∈ found ∧ ∀ w, StepTo succ v w → w ∈ found ∨ w ∈ path

theorem Done.mono {memo memo' : PathMemo V} {v : V} (h : Done succ memo v)
    (hkeeps : ∀ v, memo.has (-1, v) → memo'.has (-1, v)) : Done succ memo' v :=
  h.imp_left (hkeeps v)

/-- A call without a bound adds the node and what it finds. -/
def Exhausts (succ : V → Option (List V)) : CallProperty V :=
  fun v depth path memo found memo' => depth = -1 → ListsDone succ memo →
    Adds succ path (v :: found) memo memo'

theorem Expands.adds {path next found found' : List V} {memo memo' : PathMemo V}
    (h : Expands (Exhausts succ) (-1) path next found memo found' memo')
    (hlists : ListsDone succ memo) (hfound : ∀ w ∈ found, Done succ memo w) :
    Adds succ path found' memo memo' ∧ found ⊆ found' ∧ ∀ w ∈ next, w ∈ found' ∨ w ∈ path := by
  induction h with
  | nil => exact ⟨⟨fun _ h => h, hlists, hfound, fun _ h => .inl h⟩, List.Subset.refl _, by simp⟩
  | skip hw _ ih =>
    obtain ⟨hadds, hsub, hnext⟩ := ih hlists hfound
    exact ⟨hadds, hsub, List.forall_mem_cons.mpr ⟨.inr hw, hnext⟩⟩
  | @follow w next found below found' memo memo₁ memo' hw hcall _ ih =>
    have hcalled := hcall rfl hlists
    have hdone : ∀ x ∈ below.foldr toFront (toFront w found), Done succ memo₁ x := by
      intro x hx
      rw [mem_foldr_toFront, mem_toFront] at hx
      rcases hx with hx | rfl | hx
      · exact hcalled.done x (List.mem_cons_of_mem _ hx)
      · exact hcalled.done x List.mem_cons_self
      · exact (hfound x hx).mono hcalled.keeps
    obtain ⟨hadds, hsub, hnext⟩ := ih hcalled.lists hdone
    have hbelow : ∀ x ∈ w :: below, x ∈ found' := fun x hx =>
      hsub (by rw [mem_foldr_toFront, mem_toFront]; rcases List.mem_cons.mp hx with h | h <;> simp [h])
    refine ⟨⟨fun v hv => hadds.keeps v (hcalled.keeps v hv), hadds.lists, hadds.done, fun v hv => ?_⟩,
      fun x hx => hsub (by rw [mem_foldr_toFront, mem_toFront]; exact .inr (.inr hx)),
      List.forall_mem_cons.mpr ⟨.inl (hbelow w List.mem_cons_self), hnext⟩⟩
    rcases hadds.closed v hv with hv | hv
    · refine (hcalled.closed v hv).imp_right fun ⟨hmem, hclosed⟩ => ⟨hbelow v hmem, fun y hy => ?_⟩
      exact (hclosed y hy).imp_left (hbelow y)
    · exact .inr hv

theorem has_set {memo : PathMemo V} {v x : V} {found : List V} :
    (memo.set (depth, v) found).has (depth, x) ↔ x = v ∨ memo.has (depth, x) := by
  rw [OrderedMap.has, OrderedMap.get?_set]
  split_ifs with h
  · cases h
    simp
  · have hne : x ≠ v := fun heq => h (by rw [heq])
    simp [OrderedMap.has, hne]

theorem callCases_exhausts : CallCases succ (Exhausts succ) where
  zero _ _ _ h := absurd h (by decide)
  leaf v _ path memo hsucc _ hlists :=
    ⟨fun _ h => h, hlists, fun w hw => .inr (List.mem_singleton.mp hw ▸ hsucc), fun _ h => .inl h⟩
  cached v depth path memo found hget hdepth hlists := by
    subst hdepth
    refine ⟨fun _ h => h, hlists, List.forall_mem_cons.mpr ⟨.inl ?_, hlists v found hget⟩,
      fun _ h => .inl h⟩
    rw [OrderedMap.has, hget]
    rfl
  expand v depth path memo next found memo' _ hsucc _ hexpands hdepth hlists := by
    subst hdepth
    obtain ⟨hadds, -, hnext⟩ := hexpands.adds hlists (by simp)
    have hkeeps : ∀ x, memo'.has (-1, x) → (memo'.set (-1, v) found).has (-1, x) :=
      fun x hx => has_set.mpr (.inr hx)
    refine ⟨fun x hx => hkeeps x (hadds.keeps x hx), fun x found' hget w hw => ?_,
      List.forall_mem_cons.mpr ⟨.inl (has_set.mpr (.inl rfl)),
        fun w hw => (hadds.done w hw).mono hkeeps⟩, fun x hx => ?_⟩
    · rw [OrderedMap.get?_set] at hget
      split_ifs at hget with heq
      · cases hget
        exact (hadds.done w hw).mono hkeeps
      · exact (hadds.lists x found' hget w hw).mono hkeeps
    · rcases has_set.mp hx with rfl | hx
      · refine .inr ⟨List.mem_cons_self, fun y hy => ?_⟩
        obtain ⟨l, hl, hy⟩ := hy
        rw [hsucc] at hl
        cases hl
        rcases hnext y hy with hy | hy
        · exact .inl (List.mem_cons_of_mem _ hy)
        · exact (List.mem_cons.mp hy).imp_left fun h => List.mem_cons.mpr (.inl h)
      · refine (hadds.closed x hx).imp_right fun h =>
          ⟨List.mem_cons_of_mem _ h.1, fun y hy => ?_⟩
        rcases h.2 y hy with hy | hy
        · exact .inl (List.mem_cons_of_mem _ hy)
        · exact (List.mem_cons.mp hy).imp_left fun h => List.mem_cons.mpr (.inl h)

/-! ## The search from the root -/

/-- The search from the root finds what can be reached within the bound, once each. -/
theorem collect_spec {dom : List V} (hdom : ∀ v, succ v ≠ none → v ∈ dom) {fuel : ℕ}
    (hfuel : dom.length < fuel) (root : V) (depth : ℤ) :
    (collect succ fuel root depth [] ∅).1.Nodup ∧ root ∉ (collect succ fuel root depth [] ∅).1 ∧
      ∀ v, v ∈ (collect succ fuel root depth [] ∅).1 ↔
        v ≠ root ∧ ∃ k, Within depth k ∧ Steps succ k root v := by
  have hrule : ∀ {Q : CallProperty V}, CallCases succ Q → Q root depth [] ∅
      (collect succ fuel root depth [] ∅).1 (collect succ fuel root depth [] ∅).2 :=
    fun hQ => collect_rule hQ hdom List.nodup_nil (List.nil_subset _) (by simp) (by simpa using hfuel) ∅
  obtain ⟨hfound, -⟩ := hrule (callCases_sound root) List.mem_cons_self (fun _ _ _ h => nomatch h)
  refine ⟨hfound.nodup, hfound.root_not_mem, fun v => ⟨fun hv => ⟨fun heq => ?_, hfound.reached v hv⟩, ?_⟩⟩
  · exact hfound.root_not_mem (heq ▸ hv)
  rintro ⟨hne, k, hwithin, hsteps⟩
  by_cases hdepth : depth = -1
  · have hadds := hrule callCases_exhausts hdepth (fun _ _ h => nomatch h)
    have hclosed : ∀ j a, a ∈ root :: (collect succ fuel root depth [] ∅).1 → Steps succ j a v →
        v ∈ root :: (collect succ fuel root depth [] ∅).1 := by
      intro j
      induction j with
      | zero =>
        rintro a ha rfl
        exact ha
      | succ j ih =>
        rintro a ha ⟨b, hab, hbv⟩
        refine ih b ?_ hbv
        rcases hadds.done a ha with hdone | hleaf
        · obtain hnever | ⟨-, hstep⟩ := hadds.closed a hdone
          · cases hnever
          · exact (hstep b hab).resolve_right (by simp)
        · obtain ⟨l, hl, -⟩ := hab
          rw [hleaf] at hl
          cases hl
    exact (List.mem_cons.mp (hclosed k root List.mem_cons_self hsteps)).resolve_left hne
  · have hex : ∃ j, Steps succ j root v := ⟨k, hsteps⟩
    obtain ⟨j, hj, hmin⟩ : ∃ j, Steps succ j root v ∧ ∀ i, Steps succ i root v → j ≤ i := by
      classical
      exact ⟨Nat.find hex, Nat.find_spec hex, fun i hi => Nat.find_min' hex hi⟩
    obtain ⟨hbeyond, -⟩ := hrule (callCases_complete root depth) (by simp) hdepth (by simp) rfl
      (fun _ _ _ h => nomatch h)
    have hpos : 1 ≤ j := by
      rcases Nat.eq_zero_or_pos j with rfl | hpos
      · exact absurd hj.symm hne
      · exact hpos
    have hle := hmin k hsteps
    refine hbeyond 0 (by simp) ⟨rfl, fun _ _ => Nat.zero_le _⟩ j v hpos (fun hnonneg => ?_) hj ?_
    · have := hwithin hnonneg
      omega
    · rw [Nat.zero_add]
      exact ⟨hj, hmin⟩

end Lib
