import Mathlib.Logic.Function.Basic
import ScopeLisp.Proofs.Growth

/-!
# Renaming scopes and functions

## Renamed stores

Scopes and functions are known by number only, and evaluation never looks at
the numbers.  One store is a renaming of another when each scope is found under
its new number with everything in it renamed, and when the numbers that are
given out next are renamed to each other.  The renamed store may hold further
scopes, which nothing leads to.

## Order

Evaluation does not look at the order in which the bindings of a scope were made
either.  Stores match when each scope has its renamed parent and gives each name
its renamed value, in whatever order.

## Evaluation

Evaluation commutes with renaming: from a renamed store it gives the renamed
outcome, and from a store that matches one that matches.
-/

namespace ScopeLisp

/-!
# Renamings

A renaming gives different numbers to different scopes and to different
functions.  Renamings can be composed.
-/

/-- New numbers for scopes and functions, different ones for different ones. -/
structure Renaming where
  scope : ScopeId → ScopeId
  function : Nat → Nat
  scope_injective : Function.Injective scope
  function_injective : Function.Injective function

def Identity.rename (r : Renaming) (identity : Identity) : Identity :=
  ⟨r.function identity.number, r.scope identity.home⟩

namespace Renaming

def same : Renaming where
  scope := id
  function := id
  scope_injective := Function.injective_id
  function_injective := Function.injective_id

def comp (r r' : Renaming) : Renaming where
  scope := r'.scope ∘ r.scope
  function := r'.function ∘ r.function
  scope_injective := r'.scope_injective.comp r.scope_injective
  function_injective := r'.function_injective.comp r.function_injective

@[simp] theorem comp_scope (r r' : Renaming) (id : ScopeId) :
    (r.comp r').scope id = r'.scope (r.scope id) := rfl

@[simp] theorem comp_function (r r' : Renaming) (n : Nat) :
    (r.comp r').function n = r'.function (r.function n) := rfl

end Renaming

namespace Expr

/-!
# Renamed expressions

All functions in an expression are renamed, and everything else stays.
-/

mutual

def rename (r : Renaming) : Expr → Expr
  | .quoted inner => .quoted (rename r inner)
  | .list items => .list (renameAll r items)
  | .native identity name routine => .native (identity.rename r) name routine
  | .lambda identity params body => .lambda (identity.rename r) params (renameAll r body)
  | .atom name => .atom name
  | .str text => .str text
  | .num value => .num value
  | .null => .null

def renameAll (r : Renaming) : List Expr → List Expr
  | [] => []
  | e :: rest => rename r e :: renameAll r rest

end

theorem renameAll_eq_map (r : Renaming) (items : List Expr) :
    renameAll r items = items.map (rename r) := by
  induction items with
  | nil =>
      rfl
  | cons e rest ih =>
      rw [renameAll, List.map_cons, ih]

mutual

theorem rename_same : (e : Expr) → e.rename .same = e
  | .quoted inner => by
      rw [rename, rename_same inner]
  | .list items => by
      rw [rename, renameAll_same items]
  | .native _ _ _ => rfl
  | .lambda _ _ body => by
      rw [rename, renameAll_same body]
      rfl
  | .atom _ => rfl
  | .str _ => rfl
  | .num _ => rfl
  | .null => rfl

theorem renameAll_same : (items : List Expr) → renameAll .same items = items
  | [] => rfl
  | e :: rest => by
      rw [renameAll, rename_same e, renameAll_same rest]

end

mutual

theorem rename_comp (r r' : Renaming) : (e : Expr) → (e.rename r).rename r' = e.rename (r.comp r')
  | .quoted inner => by
      rw [rename, rename, rename, rename_comp r r' inner]
  | .list items => by
      rw [rename, rename, rename, renameAll_comp r r' items]
  | .native _ _ _ => rfl
  | .lambda _ _ body => by
      rw [rename, rename, rename, renameAll_comp r r' body]
      rfl
  | .atom _ => rfl
  | .str _ => rfl
  | .num _ => rfl
  | .null => rfl

theorem renameAll_comp (r r' : Renaming) :
    (items : List Expr) → renameAll r' (renameAll r items) = renameAll (r.comp r') items
  | [] => rfl
  | e :: rest => by
      rw [renameAll, renameAll, renameAll, rename_comp r r' e, renameAll_comp r r' rest]

end

theorem isAtom_rename (r : Renaming) (e : Expr) : (e.rename r).isAtom = e.isAtom := by
  cases e <;> rfl

theorem accepts_rename (r : Renaming) (mode : LookupMode) (e : Expr) :
    mode.accepts (e.rename r) = mode.accepts e := by
  cases mode with
  | nearest =>
      rfl
  | expanding =>
      simp [LookupMode.accepts, isAtom_rename]

end Expr

namespace Renaming

/-!
# Renamings of an extent

Renamings that agree on an extent agree on the expressions within it.  A shift
fixes one extent and moves all other numbers up.
-/

def AgreeOn (r r' : Renaming) (x : Extent) : Prop :=
  (∀ id : ScopeId, id.Within x → r.scope id = r'.scope id) ∧
    ∀ n, n < x.functions → r.function n = r'.function n

theorem AgreeOn.identity {r r' : Renaming} {x : Extent} (h : r.AgreeOn r' x) {identity : Identity}
    (hidentity : identity.Within x) : identity.rename r = identity.rename r' := by
  rw [Identity.rename, Identity.rename, h.1 _ hidentity.2, h.2 _ hidentity.1]

mutual

theorem AgreeOn.expr {r r' : Renaming} {x : Extent} (h : r.AgreeOn r' x) :
    (e : Expr) → e.Within x → e.rename r = e.rename r'
  | .quoted inner, he => by
      rw [Expr.rename, Expr.rename, h.expr inner he]
  | .list items, he => by
      rw [Expr.rename, Expr.rename, h.exprs items he]
  | .native _ _ _, he => by
      rw [Expr.rename, Expr.rename, h.identity he.1]
  | .lambda _ _ body, he => by
      rw [Expr.rename, Expr.rename, h.identity he.1, h.exprs body he.2]
  | .atom _, _ => rfl
  | .str _, _ => rfl
  | .num _, _ => rfl
  | .null, _ => rfl

theorem AgreeOn.exprs {r r' : Renaming} {x : Extent} (h : r.AgreeOn r' x) :
    (items : List Expr) → Expr.WithinAll x items → Expr.renameAll r items = Expr.renameAll r' items
  | [], _ => rfl
  | e :: rest, he => by
      rw [Expr.renameAll, Expr.renameAll, h.expr e he.1, h.exprs rest he.2]

end

/-- A renaming that leaves the scopes and functions of an extent as they are. -/
def Fixes (r : Renaming) (x : Extent) : Prop :=
  (∀ id : ScopeId, id.Within x → r.scope id = id) ∧ ∀ n, n < x.functions → r.function n = n

theorem same_fixes (x : Extent) : same.Fixes x :=
  ⟨fun _ _ => rfl, fun _ _ => rfl⟩

theorem Fixes.agreeOn {r : Renaming} {x : Extent} (h : r.Fixes x) : r.AgreeOn .same x :=
  h

theorem Fixes.expr {r : Renaming} {x : Extent} (h : r.Fixes x) (e : Expr) (he : e.Within x) :
    e.rename r = e :=
  (h.agreeOn.expr e he).trans e.rename_same

theorem Fixes.mono {r : Renaming} {x y : Extent} (h : r.Fixes y) (hcovers : y.Covers x) :
    r.Fixes x :=
  ⟨fun id hid => h.1 id (Nat.lt_of_lt_of_le hid hcovers.1),
    fun n hn => h.2 n (Nat.lt_of_lt_of_le hn hcovers.2)⟩

theorem Fixes.comp {r r' : Renaming} {x : Extent} (h : r.Fixes x) (h' : r'.Fixes x) :
    (r.comp r').Fixes x := by
  constructor
  · intro id hid
    exact (congrArg r'.scope (h.1 id hid)).trans (h'.1 id hid)
  · intro n hn
    exact (congrArg r'.function (h.2 n hn)).trans (h'.2 n hn)

/--
The renaming that leaves the numbers of one extent alone and moves all others
up, so that they begin where another extent ends.
-/
def shift (x y : Extent) : Renaming where
  scope id := if id.index < x.scopes then id else ⟨id.index + (y.scopes - x.scopes)⟩
  function n := if n < x.functions then n else n + (y.functions - x.functions)
  scope_injective := by
    intro a b h
    obtain ⟨a⟩ := a
    obtain ⟨b⟩ := b
    dsimp only at h
    split at h <;> split at h <;> simp only [ScopeId.mk.injEq] at h ⊢ <;> omega
  function_injective := by
    intro m n h
    dsimp only at h
    split at h <;> split at h <;> omega

theorem shift_fixes (x y : Extent) : (shift x y).Fixes x :=
  ⟨fun _ h => if_pos h, fun _ h => if_pos h⟩

theorem shift_scope_add {x y : Extent} (h : y.Covers x) (k : Nat) :
    (shift x y).scope ⟨x.scopes + k⟩ = ⟨y.scopes + k⟩ := by
  have hmoved : (shift x y).scope ⟨x.scopes + k⟩ = ⟨x.scopes + k + (y.scopes - x.scopes)⟩ :=
    if_neg (Nat.not_lt_of_le (Nat.le_add_right ..))
  rw [hmoved, Nat.add_right_comm, Nat.add_sub_cancel' h.1]

theorem shift_function_add {x y : Extent} (h : y.Covers x) (k : Nat) :
    (shift x y).function (x.functions + k) = y.functions + k := by
  have hmoved : (shift x y).function (x.functions + k) =
      x.functions + k + (y.functions - x.functions) :=
    if_neg (Nat.not_lt_of_le (Nat.le_add_right ..))
  rw [hmoved, Nat.add_right_comm, Nat.add_sub_cancel' h.2]

end Renaming

namespace Scope

/-!
# Renamed scopes

In a closed store, renamings that agree on its extent agree on its scopes.
-/

def rename (r : Renaming) (scope : Scope) : Scope where
  parent := scope.parent.map r.scope
  bindings := scope.bindings.map fun binding => (binding.1, binding.2.rename r)

theorem local?_rename (r : Renaming) (scope : Scope) (name : String) :
    (scope.rename r).local? name = (scope.local? name).map (Expr.rename r) := by
  obtain ⟨parent, bindings⟩ := scope
  simp only [local?, rename]
  induction bindings with
  | nil =>
      rfl
  | cons binding rest ih =>
      obtain ⟨key, value⟩ := binding
      cases hkey : name == key with
      | true =>
          simp [List.lookup_cons, hkey]
      | false =>
          simp [List.lookup_cons, hkey, ih]

theorem rename_same : Scope.rename .same = id := by
  funext scope
  have hbindings : (fun binding : String × Expr => (binding.1, binding.2.rename .same)) = id := by
    funext binding
    rw [Expr.rename_same]
    rfl
  have hparent : scope.parent.map Renaming.same.scope = scope.parent :=
    congrFun Option.map_id scope.parent
  rw [rename, hbindings, List.map_id, hparent]
  rfl

theorem rename_comp (r r' : Renaming) (scope : Scope) :
    (scope.rename r).rename r' = scope.rename (r.comp r') := by
  simp only [rename, Option.map_map, List.map_map, Function.comp_def, Expr.rename_comp]
  rfl

theorem rename_of_agreeOn {r r' : Renaming} {x : Extent} (h : r.AgreeOn r' x) {scope : Scope}
    (hscope : scope.Within x) (hparent : ∀ parent, scope.parent = some parent → parent.Within x) :
    scope.rename r = scope.rename r' := by
  have hbindings : scope.bindings.map (fun binding => (binding.1, binding.2.rename r)) =
      scope.bindings.map fun binding => (binding.1, binding.2.rename r') := by
    apply List.map_congr_left
    intro binding hmem
    rw [h.expr binding.2 (hscope binding hmem)]
  have hsame : scope.parent.map r.scope = scope.parent.map r'.scope := by
    cases hcase : scope.parent with
    | none =>
        rfl
    | some parent =>
        rw [Option.map_some, Option.map_some, h.1 parent (hparent parent hcase)]
  rw [rename, rename, hbindings, hsame]

end Scope

namespace Forest

variable {r : Renaming} {f g : Forest} {id : ScopeId}

theorem parent?_of_renamed (h : g.get? (r.scope id) = (f.get? id).map (Scope.rename r)) :
    g.parent? (r.scope id) = (f.parent? id).map r.scope := by
  rw [parent?, parent?, h]
  cases f.get? id <;> rfl

theorem local?_of_renamed (h : g.get? (r.scope id) = (f.get? id).map (Scope.rename r))
    (name : String) : g.local? (r.scope id) name = (f.local? id name).map (Expr.rename r) := by
  rw [local?, local?, h]
  cases f.get? id with
  | none =>
      rfl
  | some scope =>
      exact scope.local?_rename r name

end Forest

theorem Store.Closed.map_rename_of_agreeOn {s : Store} (hs : s.Closed) {r r' : Renaming}
    (h : r.AgreeOn r' s.extent) (id : ScopeId) :
    (s.forest.get? id).map (Scope.rename r) = (s.forest.get? id).map (Scope.rename r') := by
  cases hscope : s.forest.get? id with
  | none =>
      rfl
  | some scope =>
      apply congrArg some
      apply Scope.rename_of_agreeOn h (hs id scope hscope)
      intro parent hparent
      have hsome : s.forest.parent? id = some parent := by
        rw [Forest.parent?, hscope]
        exact hparent
      exact Nat.lt_trans (Forest.parent?_lt hsome) (Forest.index_lt_of_get? hscope)

theorem Store.Closed.get?_of_fixes {s : Store} (hs : s.Closed) {r : Renaming}
    (h : r.Fixes s.extent) {id : ScopeId} (hid : id.Within s.extent) :
    s.forest.get? (r.scope id) = (s.forest.get? id).map (Scope.rename r) := by
  rw [h.1 id hid, hs.map_rename_of_agreeOn h.agreeOn, Scope.rename_same, Option.map_id]
  rfl

/-!
# Stores that match

The way outwards from a renamed scope is the renamed way, so what is found in a
closed store is found renamed in a store that matches it.
-/

/-- A store under new numbers, in whose scopes the bindings may stand in another order. -/
structure Store.Matches (r : Renaming) (s t : Store) : Prop where
  parent?_eq (id : ScopeId) : t.forest.parent? (r.scope id) = (s.forest.parent? id).map r.scope
  local?_eq (id : ScopeId) (name : String) :
    t.forest.local? (r.scope id) name = (s.forest.local? id name).map (Expr.rename r)
  scope_fresh (k : Nat) : r.scope ⟨s.forest.size + k⟩ = ⟨t.forest.size + k⟩
  function_fresh (k : Nat) : r.function (s.functions + k) = t.functions + k

theorem Store.matches_same (s : Store) : s.Matches .same s where
  parent?_eq _ := (congrFun Option.map_id _).symm
  local?_eq _ name := by
    have hsame : Expr.rename .same = id := funext Expr.rename_same
    rw [hsame, Option.map_id]
    rfl
  scope_fresh _ := rfl
  function_fresh _ := rfl

namespace Store.Matches

variable {r r' : Renaming} {s t u : Store}

theorem index_eq_iff (h : s.Matches r t) (id : ScopeId) (k : Nat) :
    (r.scope id).index = t.forest.size + k ↔ id.index = s.forest.size + k := by
  have hfresh := h.scope_fresh k
  constructor
  · intro hindex
    have hsame : r.scope id = r.scope ⟨s.forest.size + k⟩ := by
      rw [hfresh]
      exact congrArg ScopeId.mk hindex
    rw [r.scope_injective hsame]
  · intro hindex
    have hid : id = ⟨s.forest.size + k⟩ := congrArg ScopeId.mk hindex
    rw [hid, hfresh]

theorem within_iff (h : s.Matches r t) (id : ScopeId) :
    (r.scope id).index < t.forest.size ↔ id.index < s.forest.size := by
  have hbeyond : t.forest.size ≤ (r.scope id).index ↔ s.forest.size ≤ id.index := by
    constructor
    · intro hle
      rcases Nat.exists_eq_add_of_le hle with ⟨k, hk⟩
      rw [(h.index_eq_iff id k).mp hk]
      exact Nat.le_add_right ..
    · intro hle
      rcases Nat.exists_eq_add_of_le hle with ⟨k, hk⟩
      rw [(h.index_eq_iff id k).mpr hk]
      exact Nat.le_add_right ..
  rw [← Nat.not_le, ← Nat.not_le, hbeyond]

theorem function_lt (h : s.Matches r t) {n : Nat} (hn : n < s.functions) :
    r.function n < t.functions := by
  apply Nat.lt_of_not_le
  intro hle
  rcases Nat.exists_eq_add_of_le hle with ⟨k, hk⟩
  rw [← h.function_fresh k] at hk
  rw [r.function_injective hk] at hn
  exact absurd hn (Nat.not_lt_of_le (Nat.le_add_right ..))

/-- The way outwards is the renamed way. -/
theorem chain_eq (h : s.Matches r t) (id : ScopeId) :
    t.forest.chain (r.scope id) = (s.forest.chain id).map r.scope := by
  induction hindex : id.index using Nat.strongRecOn generalizing id with
  | _ n ih =>
      have hparent := h.parent?_eq id
      by_cases hid : id.index < s.forest.size
      · cases hcase : s.forest.parent? id with
        | none =>
            rw [hcase] at hparent
            rw [Forest.chain_of_parent?_eq_none _ ((h.within_iff id).mpr hid) hparent,
              Forest.chain_of_parent?_eq_none _ hid hcase]
            rfl
        | some parent =>
            rw [hcase] at hparent
            rw [Forest.chain_of_parent?_eq_some _ hparent,
              Forest.chain_of_parent?_eq_some _ hcase, List.map_cons,
              ih parent.index (hindex ▸ Forest.parent?_lt hcase) parent rfl]
      · have hnone : s.forest.get? id = none :=
          (Forest.get?_eq_none_iff _ _).mpr (Nat.le_of_not_lt hid)
        have hnone' : t.forest.get? (r.scope id) = none :=
          (Forest.get?_eq_none_iff _ _).mpr
            (Nat.le_of_not_lt fun h' => hid ((h.within_iff id).mp h'))
        rw [Forest.chain_of_get?_eq_none _ hnone, Forest.chain_of_get?_eq_none _ hnone']
        rfl

theorem depth_eq (h : s.Matches r t) (id : ScopeId) :
    t.forest.depth (r.scope id) = s.forest.depth id := by
  rw [Forest.depth, Forest.depth, h.chain_eq, List.length_map]

theorem lookup_eq (h : s.Matches r t) (id : ScopeId) (name : String) (mode : LookupMode) :
    t.lookup (r.scope id) name mode = (s.lookup id name mode).map (Expr.rename r) := by
  rw [Store.lookup, Store.lookup, Forest.lookup_eq_findSome?_local?,
    Forest.lookup_eq_findSome?_local?, h.chain_eq, List.findSome?_map, List.map_findSome?]
  congr 1
  funext scope
  simp only [Function.comp_apply, h.local?_eq, Option.filter_map]
  congr 2
  funext value
  exact Expr.accepts_rename r mode value

theorem binds_eq (h : s.Matches r t) (id : ScopeId) (name : String) :
    t.forest.binds (r.scope id) name = s.forest.binds id name := by
  rw [Forest.binds, Forest.binds, h.local?_eq, Option.isSome_map]

theorem lookup_rel (h : s.Matches r t) (hs : s.Closed) (id : ScopeId) (name : String)
    (mode : LookupMode) :
    Option.Rel (fun e e' => e' = e.rename r ∧ e.Within s.extent) (s.lookup id name mode)
      (t.lookup (r.scope id) name mode) := by
  rw [h.lookup_eq]
  cases hfound : s.lookup id name mode with
  | none =>
      exact .none
  | some value =>
      exact .some ⟨rfl, hs.lookup_within hfound⟩

theorem rename_lambda (h : s.Matches r t) (home : ScopeId) (params : List String)
    (body : List Expr) :
    (Expr.lambda ⟨s.functions, home⟩ params body).rename r =
      .lambda ⟨t.functions, r.scope home⟩ params (Expr.renameAll r body) := by
  have hnext := h.function_fresh 0
  rw [Nat.add_zero, Nat.add_zero] at hnext
  rw [Expr.rename, Identity.rename, hnext]

theorem trans (h : s.Matches r t) (h' : t.Matches r' u) : s.Matches (r.comp r') u where
  parent?_eq id := by
    rw [Renaming.comp_scope, h'.parent?_eq, h.parent?_eq, Option.map_map]
    rfl
  local?_eq id name := by
    rw [Renaming.comp_scope, h'.local?_eq, h.local?_eq, Option.map_map]
    congr 1
    funext value
    exact value.rename_comp r r'
  scope_fresh k := by
    rw [Renaming.comp_scope, h.scope_fresh, h'.scope_fresh]
  function_fresh k := by
    rw [Renaming.comp_function, h.function_fresh, h'.function_fresh]

/-!
# Steps of evaluation on stores that match

Opening a scope, binding a name and making a function lead from stores that
match to stores that match.  The next function is the next function renamed.
-/

theorem addChild (h : s.Matches r t) {parent : ScopeId} (hparent : parent.index < s.forest.size) :
    (s.addChild parent).Matches r (t.addChild (r.scope parent)) where
  parent?_eq id := by
    have hindex := h.index_eq_iff id 0
    simp only [Nat.add_zero] at hindex
    simp only [Store.addChild]
    rw [Forest.parent?_addChild _ ((h.within_iff parent).mpr hparent),
      Forest.parent?_addChild _ hparent]
    simp only [hindex]
    split
    · rfl
    · exact h.parent?_eq id
  local?_eq id name := by
    simp only [Store.addChild]
    rw [Forest.local?_addChild _ ((h.within_iff parent).mpr hparent),
      Forest.local?_addChild _ hparent, h.local?_eq]
  scope_fresh k := by
    simp only [Store.addChild, Forest.size_addChild, Nat.add_assoc]
    exact h.scope_fresh (1 + k)
  function_fresh := h.function_fresh

theorem set (h : s.Matches r t) (id : ScopeId) (name : String) (value : Expr) :
    Store.Matches r { s with forest := s.forest.set id name value }
      { t with forest := t.forest.set (r.scope id) name (value.rename r) } where
  parent?_eq other := by
    simp only [Forest.parent?_set, h.parent?_eq]
  local?_eq other key := by
    simp only [Forest.local?_set, r.scope_injective.eq_iff, h.within_iff]
    split
    · rfl
    · exact h.local?_eq other key
  scope_fresh k := by
    simp only [Forest.size_set]
    exact h.scope_fresh k
  function_fresh := h.function_fresh

theorem addFunction (h : s.Matches r t) : s.addFunction.Matches r t.addFunction where
  parent?_eq := h.parent?_eq
  local?_eq := h.local?_eq
  scope_fresh := h.scope_fresh
  function_fresh k := by
    simp only [Store.addFunction, Nat.add_assoc]
    exact h.function_fresh (1 + k)

end Store.Matches

/-!
# Renamed stores

Where one store ends and gives out new numbers, a renaming of it ends as well.
A store that has grown is a renaming of what it was, with new numbers from
where it ends now.
-/

theorem Store.get?_eq_of_fresh {r : Renaming} {s t : Store}
    (hfresh : ∀ k, r.scope ⟨s.forest.size + k⟩ = ⟨t.forest.size + k⟩) {id : ScopeId}
    (hid : s.forest.size ≤ id.index) :
    t.forest.get? (r.scope id) = (s.forest.get? id).map (Scope.rename r) := by
  rw [(s.forest.get?_eq_none_iff id).mpr hid]
  rcases ScopeId.exists_eq_add hid with ⟨k, rfl⟩
  rw [hfresh]
  exact (t.forest.get?_eq_none_iff _).mpr (Nat.le_add_right ..)

/-- A store under new numbers. -/
structure Store.Renamed (r : Renaming) (s t : Store) : Prop where
  get?_eq (id : ScopeId) : t.forest.get? (r.scope id) = (s.forest.get? id).map (Scope.rename r)
  scope_fresh (k : Nat) : r.scope ⟨s.forest.size + k⟩ = ⟨t.forest.size + k⟩
  function_fresh (k : Nat) : r.function (s.functions + k) = t.functions + k

namespace Store.Renamed

variable {r : Renaming} {s t : Store}

theorem toMatches (h : s.Renamed r t) : s.Matches r t where
  parent?_eq id := Forest.parent?_of_renamed (h.get?_eq id)
  local?_eq id := Forest.local?_of_renamed (h.get?_eq id)
  scope_fresh := h.scope_fresh
  function_fresh := h.function_fresh

theorem depth_eq (h : s.Renamed r t) (id : ScopeId) :
    t.forest.depth (r.scope id) = s.forest.depth id :=
  h.toMatches.depth_eq id

theorem addChild (h : s.Renamed r t) {parent : ScopeId} (hparent : parent.index < s.forest.size) :
    (s.addChild parent).Renamed r (t.addChild (r.scope parent)) where
  get?_eq id := by
    have hindex := h.toMatches.index_eq_iff id 0
    simp only [Nat.add_zero] at hindex
    simp only [Store.addChild]
    rw [Forest.get?_addChild _ ((h.toMatches.within_iff parent).mpr hparent),
      Forest.get?_addChild _ hparent]
    simp only [hindex]
    split
    · rfl
    · exact h.get?_eq id
  scope_fresh k := by
    simp only [Store.addChild, Forest.size_addChild, Nat.add_assoc]
    exact h.scope_fresh (1 + k)
  function_fresh := h.function_fresh

theorem set (h : s.Renamed r t) (id : ScopeId) (name : String) (value : Expr) :
    Store.Renamed r { s with forest := s.forest.set id name value }
      { t with forest := t.forest.set (r.scope id) name (value.rename r) } where
  get?_eq other := by
    have hindex : (r.scope id).index = (r.scope other).index ↔ id.index = other.index := by
      constructor
      · intro heq
        rw [r.scope_injective (congrArg ScopeId.mk heq)]
      · intro heq
        have hsame : id = other := congrArg ScopeId.mk heq
        rw [hsame]
    simp only [Forest.get?_set, hindex]
    split
    · rw [h.get?_eq]
      cases s.forest.get? other <;> rfl
    · exact h.get?_eq other
  scope_fresh k := by
    simp only [Forest.size_set]
    exact h.scope_fresh k
  function_fresh := h.function_fresh

theorem addFunction (h : s.Renamed r t) : s.addFunction.Renamed r t.addFunction where
  get?_eq := h.get?_eq
  scope_fresh := h.scope_fresh
  function_fresh k := by
    simp only [Store.addFunction, Nat.add_assoc]
    exact h.function_fresh (1 + k)

end Store.Renamed

theorem Store.GrowsTo.renamed {s t : Store} (h : s.GrowsTo t) (hs : s.Closed) :
    s.Renamed (.shift s.extent t.extent) t where
  get?_eq id := by
    have hfixes := Renaming.shift_fixes s.extent t.extent
    rcases Nat.lt_or_ge id.index s.forest.size with hid | hid
    · rw [← hs.get?_of_fixes hfixes hid, hfixes.1 id hid, h.extend.2 id hid]
    · exact Store.get?_eq_of_fresh (Renaming.shift_scope_add h.covers) hid
  scope_fresh := Renaming.shift_scope_add h.covers
  function_fresh := Renaming.shift_function_add h.covers

/-!
# Evaluation and renaming

Counting evaluations makes no difference to renamed stores, so evaluation
commutes with renaming on every level.
-/

namespace Agreement

/-- A run on a closed store and a run on a renaming of it. -/
def renamed (r : Renaming) : Agreement where
  World := Extent
  Later w w' := w'.Covers w
  scope w a b := b = r.scope a ∧ a.Within w
  opened w a b := b = r.scope a ∧ a.Within w
  expr w e e' := e' = e.rename r ∧ e.Within w
  store w s s' := s.extent = w ∧ s.Closed ∧ s.Renamed r s'
  excused _ := False
  shared _ := True
  later_refl w := w.covers_refl
  later_trans h h' := h'.trans h
  scope_later h hab := ⟨hab.1, Nat.lt_of_lt_of_le hab.2 h.1⟩
  opened_later h hab := ⟨hab.1, Nat.lt_of_lt_of_le hab.2 h.1⟩
  expr_later {w w' e e'} h he := ⟨he.1, Expr.Within.mono h e he.2⟩
  scope_of_opened h := h
  shared_of_ordinary _ := trivial
  layer {w e e'} h := by
    obtain ⟨rfl, he⟩ := h
    cases e with
    | atom name =>
        exact .atom name
    | str text =>
        exact .str text
    | num value =>
        exact .num value
    | quoted inner =>
        exact .quoted ⟨rfl, he⟩
    | list items =>
        rw [Expr.rename, Expr.renameAll_eq_map]
        apply Expr.Layer.list
        rw [List.forall₂_map_right_iff, List.forall₂_same]
        intro e hmem
        exact ⟨rfl, Expr.withinAll_iff.mp he e hmem⟩
    | native identity name routine =>
        cases routine with
        | builtin operation =>
            exact .native identity (identity.rename r) name operation
        | host key =>
            exact he.2.elim
    | lambda identity params body =>
        exact .lambda params ⟨rfl, he.1.2⟩ ⟨rfl, he.2⟩
    | null =>
        exact .null
  plain h := by
    cases h <;> exact ⟨rfl, trivial⟩
  lookup {w s s' a b} name mode hs hab := by
    obtain ⟨rfl, hclosed, hrenamed⟩ := hs
    rw [hab.1]
    exact hrenamed.toMatches.lookup_rel hclosed a name mode
  addChild {w s s' a b} hs hab := by
    obtain ⟨rfl, hclosed, hrenamed⟩ := hs
    obtain ⟨rfl, ha⟩ := hab
    refine ⟨(s.addChild a).extent, ?_, ⟨rfl, hclosed.addChild ha, hrenamed.addChild ha⟩, ?_, ?_⟩
    · simp [Extent.Covers, Store.extent, Store.addChild]
    · exact (hrenamed.scope_fresh 0).symm
    · simp [ScopeId.Within, Store.extent, Store.addChild, Forest.fresh]
  binds_eq {w s s' a b} name hs hab := by
    rw [hab.1, hs.2.2.toMatches.binds_eq]
  set {w s s' a b v v'} name hs hab hv := by
    obtain ⟨rfl, hclosed, hrenamed⟩ := hs
    obtain ⟨rfl, ha⟩ := hab
    obtain ⟨rfl, hv⟩ := hv
    refine ⟨s.extent, Extent.covers_refl _, by simp [Store.extent], ?_, ?_⟩
    · exact hclosed.set a name hv
    · exact hrenamed.set a name v
  addFunction {w s s' a b params params' names body body'} hs hab _ _ hbody := by
    obtain ⟨rfl, hclosed, hrenamed⟩ := hs
    obtain ⟨rfl, ha⟩ := hab
    obtain ⟨hbody, hwithin⟩ := hbody
    cases hbody
    exact ⟨s.addFunction.extent, s.covers_addFunction,
      ⟨rfl, hclosed.addFunction, hrenamed.addFunction⟩,
      (hrenamed.toMatches.rename_lambda a names body).symm, ⟨Nat.lt_succ_self _, ha⟩,
      Expr.WithinAll.mono s.covers_addFunction body hwithin⟩

theorem renamed_uncounted (r : Renaming) : (renamed r).Uncounted where
  enter := by
    rintro w s s' ⟨rfl, hclosed, hrenamed⟩
    exact ⟨rfl, hclosed, hrenamed.get?_eq, hrenamed.scope_fresh, hrenamed.function_fresh⟩
  leave := by
    rintro w s s' ⟨rfl, hclosed, hrenamed⟩
    exact ⟨rfl, hclosed, hrenamed.get?_eq, hrenamed.scope_fresh, hrenamed.function_fresh⟩
  exhausted _ := trivial

theorem renamed_counted {r : Renaming} {w : Extent} {p : Extent → Evaluated → Evaluated → Prop}
    {x y : EvalM Evaluated} (h : (renamed r).Acts w p x y) :
    (renamed r).Acts w p (EvalM.counted x) (EvalM.counted y) :=
  (renamed_uncounted r).counted h

/-- Evaluation commutes with renaming. -/
theorem renamed_evalAt {i : Interpreter} (hi : i.Ample) (r : Renaming) (levels : Nat) :
    (renamed r).Evaluators (i.evalAt levels) (i.evalAt levels) :=
  (renamed_uncounted r).evalAt hi levels

def matched (r : Renaming) : Agreement :=
  { renamed r with
    store := fun w s s' => s.extent = w ∧ s.Closed ∧ s.Matches r s'
    lookup := by
      intro w s s' a b name mode hs hab
      rcases hs with ⟨rfl, hclosed, hmatches⟩
      rw [hab.1]
      exact hmatches.lookup_rel hclosed a name mode
    addChild := by
      intro w s s' a b hs hab
      rcases hs with ⟨rfl, hclosed, hmatches⟩
      rcases hab with ⟨rfl, ha⟩
      refine ⟨(s.addChild a).extent, ?_, ⟨rfl, hclosed.addChild ha, hmatches.addChild ha⟩, ?_, ?_⟩
      · show Extent.Covers _ _
        simp [Extent.Covers, Store.extent, Store.addChild]
      · exact (hmatches.scope_fresh 0).symm
      · simp [ScopeId.Within, Store.extent, Store.addChild, Forest.fresh]
    binds_eq := by
      intro w s s' a b name hs hab
      rw [hab.1, hs.2.2.binds_eq]
    set := by
      intro w s s' a b v v' name hs hab hv
      rcases hs with ⟨rfl, hclosed, hmatches⟩
      rcases hab with ⟨rfl, ha⟩
      rcases hv with ⟨rfl, hv⟩
      refine ⟨s.extent, Extent.covers_refl _, by simp [Store.extent], ?_, ?_⟩
      · exact hclosed.set a name hv
      · exact hmatches.set a name v
    addFunction := by
      intro w s s' a b params params' names body body' hs hab _ _ hbody
      rcases hs with ⟨rfl, hclosed, hmatches⟩
      rcases hab with ⟨rfl, ha⟩
      rcases hbody with ⟨hbody, hwithin⟩
      cases hbody
      exact ⟨s.addFunction.extent, s.covers_addFunction,
        ⟨rfl, hclosed.addFunction, hmatches.addFunction⟩,
        (hmatches.rename_lambda a names body).symm, ⟨Nat.lt_succ_self _, ha⟩,
        Expr.WithinAll.mono s.covers_addFunction body hwithin⟩ }

theorem matched_uncounted (r : Renaming) : (matched r).Uncounted where
  enter := by
    intro w s s' hs
    rcases hs with ⟨rfl, hclosed, h⟩
    exact ⟨rfl, hclosed, h.parent?_eq, h.local?_eq, h.scope_fresh, h.function_fresh⟩
  leave := by
    intro w s s' hs
    rcases hs with ⟨rfl, hclosed, h⟩
    exact ⟨rfl, hclosed, h.parent?_eq, h.local?_eq, h.scope_fresh, h.function_fresh⟩
  exhausted _ := trivial

end Agreement
end ScopeLisp
