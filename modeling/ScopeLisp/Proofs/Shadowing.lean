import ScopeLisp.Proofs.AppendOnly

/-!
# Shadowing

## Lookup along a line of scopes

A lookup takes the first binding that it accepts on the way from a scope out to
its root.  In one mode a binding to an atom is opaque, and in the other it is
transparent.

## What a binding changes

A new binding is seen from the scope that has it and from every scope further in,
as long as nothing on the way hides it.  All other lookups give what they gave
before.
-/

namespace ScopeLisp

/-!
# Lookup along a line

A lookup asks the scopes of a line one after the other, and takes the first
value that the mode accepts.
-/

theorem LookupMode.accepts_iff (mode : LookupMode) (value : Expr) :
    mode.accepts value = true ↔ value.isAtom = false ∨ mode = .nearest := by
  cases mode <;> simp [LookupMode.accepts]

namespace Forest

/-- The value that one scope itself gives to a name, if the mode accepts it. -/
def accepted? (f : Forest) (id : ScopeId) (name : String) (mode : LookupMode) : Option Expr :=
  (f.local? id name).filter mode.accepts

theorem accepted?_eq_none_iff (f : Forest) (id : ScopeId) (name : String) (mode : LookupMode) :
    f.accepted? id name mode = none ↔
      ∀ value, f.local? id name = some value → mode.accepts value = false := by
  rw [accepted?, Option.filter_eq_none_iff]
  simp

theorem Lineage.chain_eq {f : Forest} {id : ScopeId} {line : List ScopeId}
    (h : f.Lineage id line) : f.chain id = line := by
  induction h with
  | root hid hparent =>
      exact chain_of_parent?_eq_none f hid hparent
  | child hparent _ ih =>
      rw [chain_of_parent?_eq_some f hparent, ih]

/-- A lookup asks the scopes of a line one after the other. -/
theorem Lineage.lookup_eq {f : Forest} {id : ScopeId} {line : List ScopeId} (h : f.Lineage id line)
    (name : String) (mode : LookupMode) :
    f.lookup id name mode = line.findSome? (f.accepted? · name mode) := by
  rw [lookup_eq_findSome?_local?, h.chain_eq]
  rfl

theorem lookup_of_size_le {f : Forest} {id : ScopeId} (h : f.size ≤ id.index) (name : String)
    (mode : LookupMode) : f.lookup id name mode = none := by
  rw [lookup_eq_findSome?, chain_of_get?_eq_none f ((f.get?_eq_none_iff id).mpr h)]
  rfl

theorem Lineage.index_lt {f : Forest} {start : ScopeId} {line : List ScopeId}
    (h : f.Lineage start line) {id : ScopeId} (hmem : id ∈ line) : id.index < f.size := by
  induction h with
  | root hid _ =>
      rw [List.mem_singleton] at hmem
      rw [hmem]
      exact hid
  | child hparent _ ih =>
      rcases List.mem_cons.mp hmem with rfl | hmem
      · exact index_lt_of_parent? hparent
      · exact ih hmem

/-!
# What a new binding changes

What is bound at the end of a clear way is found.  On a way that is not clear,
and where the mode does not accept the value, nothing changes.
-/

/--
The way from a scope out to another one is clear of a name: no scope before the
other one has a binding of the name that the mode accepts.
-/
def Clear (f : Forest) (start id : ScopeId) (name : String) (mode : LookupMode) : Prop :=
  ∃ below above, f.Lineage start (below ++ id :: above) ∧
    ∀ scope ∈ below, ∀ value, f.local? scope name = some value → mode.accepts value = false

section Binding

variable {f : Forest} {id : ScopeId} {name : String} {value : Expr} {mode : LookupMode}

theorem lineage_set {start : ScopeId} {line : List ScopeId} (hunbound : f.local? id name = none)
    (h : f.Lineage start line) : (f.set id name value).Lineage start line := by
  have hpersists := persists_set hunbound value
  cases h with
  | root hid hparent =>
      exact hpersists.lineage hid (.root hid hparent)
  | child hparent hline =>
      exact hpersists.lineage (index_lt_of_parent? hparent) (.child hparent hline)

theorem accepted?_set_self (hid : id.index < f.size) (haccepts : mode.accepts value = true) :
    (f.set id name value).accepted? id name mode = some value := by
  rw [accepted?, local?_set, if_pos ⟨rfl, hid, rfl⟩]
  exact Option.filter_some_pos haccepts

theorem accepted?_set_of_ne (hunbound : f.local? id name = none) {other : ScopeId} {key : String}
    (hne : ¬ (other = id ∧ key = name ∧ mode.accepts value = true)) :
    (f.set id name value).accepted? other key mode = f.accepted? other key mode := by
  rw [accepted?, accepted?, local?_set]
  split
  · rename_i hsame
    rcases hsame with ⟨rfl, _, rfl⟩
    have hrefused : mode.accepts value = false :=
      Bool.eq_false_iff.mpr fun haccepts => hne ⟨rfl, rfl, haccepts⟩
    rw [hunbound, Option.filter_some_neg hrefused]
    rfl
  · rfl

theorem lookup_set_of_clear (hunbound : f.local? id name = none) {start : ScopeId}
    (hclear : f.Clear start id name mode) (haccepts : mode.accepts value = true) :
    (f.set id name value).lookup start name mode = some value := by
  rcases hclear with ⟨below, above, hline, hbelow⟩
  have hid : id.index < f.size := hline.index_lt (by simp)
  rw [(lineage_set hunbound hline).lookup_eq]
  clear hline
  induction below with
  | nil =>
      rw [List.nil_append, List.findSome?_cons, accepted?_set_self hid haccepts]
  | cons scope below ih =>
      rw [List.cons_append, List.findSome?_cons]
      by_cases hsame : scope = id
      · rw [hsame, accepted?_set_self hid haccepts]
      · have hhidden := (f.accepted?_eq_none_iff scope name mode).mpr
          (hbelow scope (List.mem_cons_self ..))
        rw [accepted?_set_of_ne hunbound (fun h => hsame h.1), hhidden]
        exact ih fun scope hmem => hbelow scope (List.mem_cons_of_mem _ hmem)

theorem findSome?_set_of_not_clear (hunbound : f.local? id name = none) {key : String}
    {line : List ScopeId}
    (hhidden : ¬ (key = name ∧ mode.accepts value = true ∧ ∃ below above,
      line = below ++ id :: above ∧ ∀ scope ∈ below, f.accepted? scope name mode = none)) :
    line.findSome? ((f.set id name value).accepted? · key mode) =
      line.findSome? (f.accepted? · key mode) := by
  induction line with
  | nil =>
      rfl
  | cons scope line ih =>
      have hsame : (f.set id name value).accepted? scope key mode = f.accepted? scope key mode := by
        apply accepted?_set_of_ne hunbound
        rintro ⟨rfl, rfl, haccepts⟩
        exact hhidden ⟨rfl, haccepts, [], line, rfl, by simp⟩
      rw [List.findSome?_cons, List.findSome?_cons, hsame]
      cases hfound : f.accepted? scope key mode with
      | some found =>
          rfl
      | none =>
          apply ih
          rintro ⟨rfl, haccepts, below, above, rfl, hbelow⟩
          apply hhidden
          refine ⟨rfl, haccepts, scope :: below, above, rfl, ?_⟩
          intro other hmem
          rcases List.mem_cons.mp hmem with rfl | hmem
          · exact hfound
          · exact hbelow other hmem

theorem lookup_set_of_not_clear (hunbound : f.local? id name = none) {start : ScopeId}
    {key : String}
    (hhidden : ¬ (key = name ∧ f.Clear start id name mode ∧ mode.accepts value = true)) :
    (f.set id name value).lookup start key mode = f.lookup start key mode := by
  rcases Nat.lt_or_ge start.index f.size with hstart | hstart
  · have hline := f.lineage_chain hstart
    rw [(lineage_set hunbound hline).lookup_eq, hline.lookup_eq]
    apply findSome?_set_of_not_clear hunbound
    rintro ⟨rfl, haccepts, below, above, hsplit, hbelow⟩
    rw [hsplit] at hline
    refine hhidden ⟨rfl, ⟨below, above, hline, ?_⟩, haccepts⟩
    intro scope hmem
    exact (f.accepted?_eq_none_iff scope key mode).mp (hbelow scope hmem)
  · have hstart' : (f.set id name value).size ≤ start.index := by
      rw [size_set]
      exact hstart
    rw [lookup_of_size_le hstart', lookup_of_size_le hstart]

end Binding
end Forest

namespace EvalM

/--
A binding changes exactly the lookups that it should.  A name that a scope binds
already is not bound again, and the store stays as it is.  Any other name is
bound, and from then on a lookup gives the new value if it is a lookup of this
name, the scope lies on the way outwards, nothing on the way hides it, and the mode
accepts the value.  Every other lookup, of any name from any scope in either mode,
gives what it gave before.
-/
theorem lookup_after_bindName (s : Store) (id : ScopeId) (name : String) (value : Expr) :
    (∀ old, s.forest.local? id name = some old →
      bindName id name value s = .error (.rebind name) s) ∧
    (s.forest.local? id name = none → ∃ t, bindName id name value s = .ok () t ∧
      ∀ (start : ScopeId) (key : String) (mode : LookupMode),
        (key = name → s.forest.Clear start id name mode →
          value.isAtom = false ∨ mode = .nearest → t.lookup start key mode = some value) ∧
        (¬ (key = name ∧ s.forest.Clear start id name mode ∧
          (value.isAtom = false ∨ mode = .nearest)) →
            t.lookup start key mode = s.lookup start key mode)) := by
  constructor
  · intro old hbound
    have hbinds : s.forest.binds id name = true := by
      rw [Forest.binds, hbound]
      rfl
    exact if_pos hbinds
  · intro hunbound
    have hfree : ¬ s.forest.binds id name = true := by
      rw [Forest.binds, hunbound]
      exact Bool.false_ne_true
    refine ⟨_, if_neg hfree, ?_⟩
    intro start key mode
    rw [← mode.accepts_iff value]
    constructor
    · rintro rfl hclear haccepts
      exact Forest.lookup_set_of_clear hunbound hclear haccepts
    · intro hhidden
      exact Forest.lookup_set_of_not_clear hunbound hhidden

/-- Three scopes in each other, of which the innermost binds `x` to the atom `a`. -/
def layered : Store :=
  Operation.run {} Store.empty [.addRoot, .addChild Store.first, .addChild ⟨1⟩,
    .bind ⟨2⟩ "x" (.atom "a")]

theorem layered_lineage : layered.forest.Lineage ⟨2⟩ [⟨2⟩, ⟨1⟩, ⟨0⟩] :=
  .child rfl (.child rfl (.root (by decide) rfl))

/--
The innermost scope hides a number that `x` is bound to in the outermost one from
the nearest lookup, and lets it through to the lookup that expands atoms.
-/
theorem lookup_after_bindName_layered :
    layered.forest.local? Store.first "x" = none ∧
    layered.forest.Clear ⟨2⟩ Store.first "x" .expanding ∧
    ¬ layered.forest.Clear ⟨2⟩ Store.first "x" .nearest ∧
    (∃ t, bindName Store.first "x" (.num .one) layered = .ok () t ∧
      t.lookup ⟨2⟩ "x" .expanding = some (.num .one) ∧
      t.lookup ⟨2⟩ "x" .nearest = some (.atom "a")) ∧
    layered.forest.local? ⟨2⟩ "x" = some (.atom "a") ∧
    bindName ⟨2⟩ "x" (.num .one) layered = .error (.rebind "x") layered := by
  have hunbound : layered.forest.local? Store.first "x" = none := rfl
  have hbound : layered.forest.local? ⟨2⟩ "x" = some (.atom "a") := rfl
  have hclear : layered.forest.Clear ⟨2⟩ Store.first "x" .expanding := by
    refine ⟨[⟨2⟩, ⟨1⟩], [], layered_lineage, ?_⟩
    intro scope hmem value hvalue
    rcases List.mem_cons.mp hmem with rfl | hmem
    · cases hbound.symm.trans hvalue
      rfl
    · rw [List.mem_singleton.mp hmem] at hvalue
      cases hvalue
  have hhidden : ¬ layered.forest.Clear ⟨2⟩ Store.first "x" .nearest := by
    rintro ⟨below, above, hline, hbelow⟩
    have hsplit := hline.chain_eq.symm.trans layered_lineage.chain_eq
    cases below with
    | nil =>
        cases hsplit
    | cons scope below =>
        cases (List.cons.inj hsplit).1
        cases hbelow ⟨2⟩ (List.mem_cons_self ..) _ hbound
  rcases (lookup_after_bindName layered Store.first "x" (.num .one)).2 hunbound with
    ⟨t, hrun, hlookup⟩
  refine ⟨hunbound, hclear, hhidden, ⟨t, hrun, ?_, ?_⟩, hbound, ?_⟩
  · exact (hlookup ⟨2⟩ "x" .expanding).1 rfl hclear (.inl rfl)
  · exact (hlookup ⟨2⟩ "x" .nearest).2 fun h => hhidden h.2.1
  · exact (lookup_after_bindName layered ⟨2⟩ "x" (.num .one)).1 _ hbound

end EvalM
end ScopeLisp
