import ScopeLisp.Proofs.AppendOnly
import ScopeLisp.Proofs.Renaming

/-!
# Scopes that fill up

## One name after the other

A binding form opens a scope and evaluates expressions, binding a name after each
of them.  No expression leads to the scope.  So what an evaluation makes of the
store before the form is found, under new numbers, beside the scope that fills up.

## Two neighbours

Two names may be bound in either order.  What the two evaluations leave in the
store changes places then, and that is all: two blocks of numbers are exchanged.
-/

namespace ScopeLisp

/-!
# A scope that fills up

A renamed store is one still when names were bound beside the renamed scopes.
-/

namespace Store

/-- A store that has grown, and in which names may have been bound in one scope. -/
structure GrowsBeside (inner : ScopeId) (s t : Store) : Prop where
  covers : t.extent.Covers s.extent
  get?_eq {id : ScopeId} : id.Within s.extent → id ≠ inner → t.forest.get? id = s.forest.get? id

theorem GrowsTo.growsBeside {s t : Store} (h : s.GrowsTo t) (inner : ScopeId) :
    s.GrowsBeside inner t where
  covers := h.covers
  get?_eq hid _ := h.extend.2 _ hid

theorem growsBeside_set (s : Store) (inner : ScopeId) (name : String) (value : Expr) :
    s.GrowsBeside inner { s with forest := s.forest.set inner name value } where
  covers := by
    simp [Extent.Covers, extent]
  get?_eq _ hne := s.forest.get?_set_of_ne hne name value

theorem GrowsBeside.trans {inner : ScopeId} {s t u : Store} (h : s.GrowsBeside inner t)
    (h' : t.GrowsBeside inner u) : s.GrowsBeside inner u where
  covers := h'.covers.trans h.covers
  get?_eq hid hne := by
    rw [h'.get?_eq (Nat.lt_of_lt_of_le hid h.covers.1) hne, h.get?_eq hid hne]

section Renamings

variable {r : Renaming} {s t u : Store}

theorem Renamed.comp_shift_agreeOn (h : s.Renamed r t) (y : Extent) :
    (r.comp (.shift t.extent y)).AgreeOn r s.extent := by
  have hfixes := Renaming.shift_fixes t.extent y
  constructor
  · intro id hid
    exact hfixes.1 _ ((h.toMatches.within_iff id).mpr hid)
  · intro n hn
    exact hfixes.2 _ (h.toMatches.function_lt hn)

theorem Renamed.later (h : s.Renamed r t) (hs : s.Closed) {inner : ScopeId}
    (hapart : ∀ id, r.scope id ≠ inner) (hgrows : t.GrowsBeside inner u) :
    s.Renamed (r.comp (.shift t.extent u.extent)) u := by
  have hagree := h.comp_shift_agreeOn u.extent
  have hfresh : ∀ k, (r.comp (.shift t.extent u.extent)).scope ⟨s.forest.size + k⟩ =
      ⟨u.forest.size + k⟩ := by
    intro k
    rw [Renaming.comp_scope, h.scope_fresh]
    exact Renaming.shift_scope_add hgrows.covers k
  refine ⟨?_, hfresh, ?_⟩
  · intro id
    rcases Nat.lt_or_ge id.index s.forest.size with hid | hid
    · rw [hagree.1 id hid, hgrows.get?_eq ((h.toMatches.within_iff id).mpr hid) (hapart id),
        h.get?_eq, hs.map_rename_of_agreeOn hagree]
    · exact get?_eq_of_fresh hfresh hid
  · intro k
    rw [Renaming.comp_function, h.function_fresh]
    exact Renaming.shift_function_add hgrows.covers k

/-- Two renamings of one store are renamings of each other where both hold it. -/
theorem Renamed.get?_transport {p q : Renaming} (hs : s.Closed) (h : s.Renamed p t)
    (h' : s.Renamed q u) (hagree : (p.comp r).AgreeOn q s.extent) {id : ScopeId}
    (hid : id.Within s.extent) :
    u.forest.get? (r.scope (p.scope id)) = (t.forest.get? (p.scope id)).map (Scope.rename r) := by
  have hsame : r.scope (p.scope id) = q.scope id := hagree.1 id hid
  rw [hsame, h'.get?_eq, h.get?_eq, ← hs.map_rename_of_agreeOn hagree, Option.map_map]
  congr 1
  funext scope
  exact (scope.rename_comp p r).symm

end Renamings

/-!
# What an evaluation leaves beside the scope

One more name is bound in the scope that was opened first, and what the
evaluation has made is found under new numbers beside it.
-/

/--
A later store `t` that holds what an evaluation made of a store `s`, namely `s₁`, apart
from the scope that was opened first.
-/
structure Carries (s : Store) (r : Renaming) (s₁ t : Store) : Prop where
  alone : s.GrowsTo s₁
  fixes : r.Fixes s.extent
  apart (id : ScopeId) : r.scope id ≠ s.forest.fresh
  renamed : s₁.Renamed r t

/--
One more name in the scope that was opened first: `t` holds besides what was in `u`
what an evaluation alone has made of `s`, and its value under the name.
-/
structure Fills (s : Store) (name : String) (value : Expr) (s₁ u t : Store) : Prop where
  grows : u.GrowsBeside s.forest.fresh t
  carries : s.Carries (.shift s.extent u.extent) s₁ t
  value_within : value.Within s₁.extent
  parent?_eq : t.forest.parent? s.forest.fresh = u.forest.parent? s.forest.fresh
  local?_eq (key : String) :
    t.forest.local? s.forest.fresh key =
      if key = name then some (value.rename (.shift s.extent u.extent))
      else u.forest.local? s.forest.fresh key

section Filling

variable {r : Renaming} {s s₁ t u : Store}

theorem shift_apart (hcovers : u.extent.Covers s.extent) (hinner : s.forest.fresh.Within u.extent)
    (id : ScopeId) : (Renaming.shift s.extent u.extent).scope id ≠ s.forest.fresh := by
  rcases Nat.lt_or_ge id.index s.forest.size with hid | hid
  · rw [(Renaming.shift_fixes s.extent u.extent).1 id hid]
    intro hsame
    exact absurd (congrArg ScopeId.index hsame) (Nat.ne_of_lt hid)
  · rcases ScopeId.exists_eq_add hid with ⟨k, rfl⟩
    have hmoved := Renaming.shift_scope_add hcovers k
    intro hsame
    have hindex : u.forest.size + k = s.forest.size :=
      congrArg ScopeId.index (hmoved.symm.trans hsame)
    have hbelow : s.forest.size < u.forest.size := hinner
    omega

theorem Carries.later (h : s.Carries r s₁ u) (hcovers : u.extent.Covers s.extent)
    (hinner : s.forest.fresh.Within u.extent) (hgrows : u.GrowsBeside s.forest.fresh t) :
    s.Carries (r.comp (.shift u.extent t.extent)) s₁ t where
  alone := h.alone
  fixes := h.fixes.comp ((Renaming.shift_fixes u.extent t.extent).mono hcovers)
  apart id := by
    have hkept := (Renaming.shift_fixes u.extent t.extent).1 s.forest.fresh hinner
    rw [Renaming.comp_scope, ← hkept, (Renaming.shift u.extent t.extent).scope_injective.ne_iff]
    exact h.apart id
  renamed := h.renamed.later h.alone.closed h.apart hgrows

theorem Renamed.set_apart (h : s.Renamed r t) {inner : ScopeId} (hapart : ∀ id, r.scope id ≠ inner)
    (name : String) (value : Expr) :
    s.Renamed r { t with forest := t.forest.set inner name value } where
  get?_eq id := by
    rw [Forest.get?_set_of_ne _ (hapart id), h.get?_eq]
  scope_fresh k := by
    rw [Forest.size_set, h.scope_fresh]
  function_fresh := h.function_fresh

theorem fills_set (hu : s.GrowsTo u) (hinner : s.forest.fresh.Within u.extent)
    (halone : s.GrowsTo s₁) (hgrows : u.GrowsTo t)
    (hrenamed : s₁.Renamed (.shift s.extent u.extent) t) (name : String) {value value' : Expr}
    (hwithin : value.Within s₁.extent)
    (hvalue : value' = value.rename (.shift s.extent u.extent)) :
    s.Fills name value s₁ u { t with forest := t.forest.set s.forest.fresh name value' } where
  grows := (hgrows.growsBeside s.forest.fresh).trans (t.growsBeside_set ..)
  carries :=
    { alone := halone
      fixes := Renaming.shift_fixes s.extent u.extent
      apart := shift_apart hu.covers hinner
      renamed := hrenamed.set_apart (shift_apart hu.covers hinner) name _ }
  value_within := hwithin
  parent?_eq := by
    rw [Forest.parent?_set, hgrows.extend.persists.parent?_eq hinner]
  local?_eq key := by
    have hinside : s.forest.fresh.index < t.forest.size :=
      Nat.lt_of_lt_of_le hinner hgrows.extend.1
    rw [Forest.local?_set, hgrows.extend.local?_eq hinner, hvalue]
    simp only [hinside, true_and]

end Filling

end Store

/-!
# Two neighbours

As much as two extents have together is an extent again, and a larger extent is
a smaller one with something added to it.
-/

namespace Extent

instance : Add Extent := ⟨fun x y => ⟨x.scopes + y.scopes, x.functions + y.functions⟩⟩

theorem covers_add (x y : Extent) : (x + y).Covers x :=
  ⟨Nat.le_add_right .., Nat.le_add_right ..⟩

theorem Covers.exists_eq_add {x y : Extent} (h : y.Covers x) : ∃ m, y = x + m := by
  rcases Nat.exists_eq_add_of_le h.1 with ⟨k, hk⟩
  rcases Nat.exists_eq_add_of_le h.2 with ⟨l, hl⟩
  refine ⟨⟨k, l⟩, ?_⟩
  cases y
  cases hk
  cases hl
  rfl

end Extent

/-!
# Exchanging two blocks of numbers

What came first is moved behind what came second, and what came second is moved
to where the first began.  All other numbers stay.
-/

/-- Exchanges the `m` numbers from `a` on with the `n` numbers behind them. -/
def exchanged (a m n i : Nat) : Nat :=
  if i < a then i else if i < a + m then i + n else if i < a + m + n then i - m else i

theorem exchanged_injective (a m n : Nat) : Function.Injective (exchanged a m n) := by
  intro i j h
  unfold exchanged at h
  split_ifs at h <;> omega

theorem exchanged_first {m k : Nat} (a n : Nat) (hk : k < m) :
    exchanged a m n (a + k) = a + n + k := by
  rw [exchanged, if_neg (by omega), if_pos (by omega)]
  omega

theorem exchanged_second {n k : Nat} (a m : Nat) (hk : k < n) :
    exchanged a m n (a + m + k) = a + k := by
  rw [exchanged, if_neg (by omega), if_neg (by omega), if_pos (by omega)]
  omega

theorem exchanged_beyond (a m n k : Nat) : exchanged a m n (a + m + n + k) = a + n + m + k := by
  rw [exchanged, if_neg (by omega), if_neg (by omega), if_neg (by omega)]
  omega

namespace Renaming

def exchange (x m n : Extent) : Renaming where
  scope id := ⟨exchanged x.scopes m.scopes n.scopes id.index⟩
  function := exchanged x.functions m.functions n.functions
  scope_injective := by
    intro a b h
    have hindex := exchanged_injective _ _ _ (congrArg ScopeId.index h)
    exact congrArg ScopeId.mk hindex
  function_injective := exchanged_injective ..

theorem exchange_fixes (x m n : Extent) : (exchange x m n).Fixes x :=
  ⟨fun _ h => congrArg ScopeId.mk (if_pos h), fun _ h => if_pos h⟩

theorem AgreeOn.of_fixes {r r' : Renaming} {x m : Extent} (h : r.Fixes x) (h' : r'.Fixes x)
    (hscope : ∀ k, k < m.scopes → r.scope ⟨x.scopes + k⟩ = r'.scope ⟨x.scopes + k⟩)
    (hfunction : ∀ k, k < m.functions →
      r.function (x.functions + k) = r'.function (x.functions + k)) : r.AgreeOn r' (x + m) := by
  constructor
  · intro id hid
    rcases Nat.lt_or_ge id.index x.scopes with hwithin | hbeyond
    · exact (h.1 id hwithin).trans (h'.1 id hwithin).symm
    · rcases ScopeId.exists_eq_add hbeyond with ⟨k, rfl⟩
      exact hscope k (Nat.lt_of_add_lt_add_left hid)
  · intro l hl
    rcases Nat.lt_or_ge l x.functions with hwithin | hbeyond
    · exact (h.2 l hwithin).trans (h'.2 l hwithin).symm
    · rcases Nat.exists_eq_add_of_le hbeyond with ⟨k, rfl⟩
      exact hfunction k (Nat.lt_of_add_lt_add_left hl)

variable {x u : Extent}

theorem exchange_agreeOn_first (hu : u.Covers x) (m n : Extent) :
    ((shift x u).comp (exchange u m n)).AgreeOn (shift x (u + n)) (x + m) := by
  have hfixes := (shift_fixes x u).comp ((exchange_fixes u m n).mono hu)
  have hcovers := (u.covers_add n).trans hu
  apply AgreeOn.of_fixes hfixes (shift_fixes x (u + n))
  · intro k hk
    rw [comp_scope, shift_scope_add hu, shift_scope_add hcovers]
    exact congrArg ScopeId.mk (exchanged_first _ _ hk)
  · intro k hk
    rw [comp_function, shift_function_add hu, shift_function_add hcovers]
    exact exchanged_first _ _ hk

theorem exchange_agreeOn_second (hu : u.Covers x) (m n : Extent) :
    ((shift x (u + m)).comp (exchange u m n)).AgreeOn (shift x u) (x + n) := by
  have hcovers := (u.covers_add m).trans hu
  have hfixes := (shift_fixes x (u + m)).comp ((exchange_fixes u m n).mono hu)
  apply AgreeOn.of_fixes hfixes (shift_fixes x u)
  · intro k hk
    rw [comp_scope, shift_scope_add hu, shift_scope_add hcovers]
    exact congrArg ScopeId.mk (exchanged_second _ _ hk)
  · intro k hk
    rw [comp_function, shift_function_add hu, shift_function_add hcovers]
    exact exchanged_second _ _ hk

end Renaming

namespace Store

section Exchange

variable {s s₁ s₂ u a b c d t : Store} {name₁ name₂ : String} {value₁ value₂ : Expr}

theorem Fills.extent_eq {name : String} {value : Expr} (h : s.Fills name value s₁ u t)
    (hu : u.extent.Covers s.extent) {m : Extent} (hm : s₁.extent = s.extent + m) :
    t.extent = u.extent + m := by
  have hscopes : s₁.forest.size = s.forest.size + m.scopes := congrArg Extent.scopes hm
  have hfunctions : s₁.functions = s.functions + m.functions := congrArg Extent.functions hm
  have hscope := h.carries.renamed.scope_fresh 0
  have hfunction := h.carries.renamed.function_fresh 0
  rw [Nat.add_zero, Nat.add_zero, hscopes] at hscope
  rw [Nat.add_zero, Nat.add_zero, hfunctions] at hfunction
  have hsize := congrArg ScopeId.index (hscope.symm.trans (Renaming.shift_scope_add hu m.scopes))
  have hcount := hfunction.symm.trans (Renaming.shift_function_add hu m.functions)
  rw [Store.extent, hcount]
  exact congrArg (Extent.mk · _) hsize

theorem Fills.scope_cases {name : String} {value : Expr} (h : s.Fills name value s₁ u t)
    (hu : u.extent.Covers s.extent) {id : ScopeId} (hid : id.Within t.extent) :
    id.Within u.extent ∨
      ∃ id', id'.Within s₁.extent ∧ id = (Renaming.shift s.extent u.extent).scope id' := by
  rcases h.carries.alone.covers.exists_eq_add with ⟨m, hm⟩
  rw [h.extent_eq hu hm] at hid
  rcases Nat.lt_or_ge id.index u.forest.size with hbefore | hafter
  · exact .inl hbefore
  · rcases ScopeId.exists_eq_add hafter with ⟨k, rfl⟩
    rw [hm]
    refine .inr ⟨⟨s.forest.size + k⟩, ?_, (Renaming.shift_scope_add hu k).symm⟩
    exact Nat.add_lt_add_left (Nat.lt_of_add_lt_add_left hid) _

/-!
# Two steps in either order

Beside the scope that fills up each scope is found where the other order has
it.  In that scope each name has its own value in either order.
-/

/--
A renaming for two steps that were made in either order, from `u` to `a` and `b`, and
from `u` to `c` and `d`: what each of them left is moved to where the other order has it.
-/
structure Exchanges (s s₁ s₂ u a b c d : Store) (r : Renaming) : Prop where
  fixes : r.Fixes u.extent
  first :
    ((Renaming.shift s.extent u.extent).comp r).AgreeOn (.shift s.extent c.extent) s₁.extent
  second :
    ((Renaming.shift s.extent a.extent).comp r).AgreeOn (.shift s.extent u.extent) s₂.extent
  scope_fresh (k : Nat) : r.scope ⟨b.forest.size + k⟩ = ⟨d.forest.size + k⟩
  function_fresh (k : Nat) : r.function (b.functions + k) = d.functions + k

section Neighbours

variable {r : Renaming} (hu : s.GrowsTo u) (h₁ : s.Fills name₁ value₁ s₁ u a)
  (h₂ : s.Fills name₂ value₂ s₂ a b) (h₂' : s.Fills name₂ value₂ s₂ u c)
  (h₁' : s.Fills name₁ value₁ s₁ c d)
include hu h₁ h₂ h₂' h₁'

theorem exists_exchanges : ∃ r, Exchanges s s₁ s₂ u a b c d r := by
  rcases h₁.carries.alone.covers.exists_eq_add with ⟨m, hm⟩
  rcases h₂.carries.alone.covers.exists_eq_add with ⟨n, hn⟩
  have ha := h₁.extent_eq hu.covers hm
  have hc := h₂'.extent_eq hu.covers hn
  have hb := h₂.extent_eq (h₁.grows.covers.trans hu.covers) hn
  have hd := h₁'.extent_eq (h₂'.grows.covers.trans hu.covers) hm
  rw [ha] at hb
  rw [hc] at hd
  refine ⟨.exchange u.extent m n, Renaming.exchange_fixes u.extent m n, ?_, ?_, ?_, ?_⟩
  · rw [hm, hc]
    exact Renaming.exchange_agreeOn_first hu.covers m n
  · rw [hn, ha]
    exact Renaming.exchange_agreeOn_second hu.covers m n
  · intro k
    have hbefore : b.forest.size = u.forest.size + m.scopes + n.scopes := congrArg Extent.scopes hb
    have hafter : d.forest.size = u.forest.size + n.scopes + m.scopes := congrArg Extent.scopes hd
    rw [hbefore, hafter]
    exact congrArg ScopeId.mk (exchanged_beyond ..)
  · intro k
    have hbefore : b.functions = u.functions + m.functions + n.functions :=
      congrArg Extent.functions hb
    have hafter : d.functions = u.functions + n.functions + m.functions :=
      congrArg Extent.functions hd
    rw [hbefore, hafter]
    exact exchanged_beyond ..

theorem Exchanges.get?_eq (h : Exchanges s s₁ s₂ u a b c d r) {id : ScopeId}
    (hapart : id ≠ s.forest.fresh) :
    d.forest.get? (r.scope id) = (b.forest.get? id).map (Scope.rename r) := by
  rcases Nat.lt_or_ge id.index b.forest.size with hid | hid
  · rcases h₂.scope_cases (h₁.grows.covers.trans hu.covers) hid with hid | ⟨id', hid', rfl⟩
    · rcases h₁.scope_cases hu.covers hid with hold | ⟨id', hid', rfl⟩
      · rw [(h₁.grows.trans h₂.grows).get?_eq hold hapart, ← hu.closed.get?_of_fixes h.fixes hold,
          h.fixes.1 id hold, (h₂'.grows.trans h₁'.grows).get?_eq hold hapart]
      · rw [h₂.grows.get?_eq hid hapart]
        exact h₁.carries.renamed.get?_transport h₁.carries.alone.closed h₁'.carries.renamed h.first
          hid'
    · have hback := h.second.1 id' hid'
      rw [Renaming.comp_scope] at hback
      have hwithin := (h₂'.carries.renamed.toMatches.within_iff id').mpr hid'
      rw [hback, h₁'.grows.get?_eq hwithin (h₂'.carries.apart id'), ← hback]
      exact h₂.carries.renamed.get?_transport h₂.carries.alone.closed h₂'.carries.renamed h.second
        hid'
  · exact get?_eq_of_fresh h.scope_fresh hid

variable (hinner : s.forest.fresh.Within u.extent)
include hinner

theorem Exchanges.local?_eq (h : Exchanges s s₁ s₂ u a b c d r) (hne : name₁ ≠ name₂)
    (key : String) :
    d.forest.local? s.forest.fresh key =
      (b.forest.local? s.forest.fresh key).map (Expr.rename r) := by
  rw [h₁'.local?_eq, h₂'.local?_eq, h₂.local?_eq, h₁.local?_eq]
  by_cases hkey₁ : key = name₁
  · have hkey₂ : key ≠ name₂ := hkey₁ ▸ hne
    rw [if_pos hkey₁, if_neg hkey₂, if_pos hkey₁, Option.map_some, Expr.rename_comp,
      h.first.expr _ h₁.value_within]
  · by_cases hkey₂ : key = name₂
    · rw [if_neg hkey₁, if_pos hkey₂, if_pos hkey₂, Option.map_some, Expr.rename_comp,
        h.second.expr _ h₂.value_within]
    · have hold := Forest.local?_of_renamed (hu.closed.get?_of_fixes h.fixes hinner) key
      rw [h.fixes.1 _ hinner] at hold
      rw [if_neg hkey₁, if_neg hkey₂, if_neg hkey₂, if_neg hkey₁]
      exact hold

theorem Exchanges.toMatches (h : Exchanges s s₁ s₂ u a b c d r) (hne : name₁ ≠ name₂) :
    b.Matches r d where
  parent?_eq id := by
    by_cases hid : id = s.forest.fresh
    · have hold := Forest.parent?_of_renamed (hu.closed.get?_of_fixes h.fixes hinner)
      rw [h.fixes.1 _ hinner] at hold
      rw [hid, h.fixes.1 _ hinner, h₁'.parent?_eq, h₂'.parent?_eq, h₂.parent?_eq, h₁.parent?_eq]
      exact hold
    · exact Forest.parent?_of_renamed (h.get?_eq hu h₁ h₂ h₂' h₁' hid)
  local?_eq id key := by
    by_cases hid : id = s.forest.fresh
    · rw [hid, h.fixes.1 _ hinner]
      exact h.local?_eq hu h₁ h₂ h₂' h₁' hinner hne key
    · exact Forest.local?_of_renamed (h.get?_eq hu h₁ h₂ h₂' h₁' hid) key
  scope_fresh := h.scope_fresh
  function_fresh := h.function_fresh

end Neighbours

end Exchange

end Store

end ScopeLisp
