import JarRename.Proofs.Site.Attribute

/-!
**Walks are deep enough.**

The walk over an attribute is bounded by how deep its parts nest. The bound does not matter once it is above the number
of bytes in the window: every part is nested behind a byte that the walk has taken, so the window that is left for it is
shorter, and no bound is ever used up.

* `Walk.SameBelow`: walks that agree on short windows;
* `Walk.Forward`: walks that put no bytes back;
* `Mention.sameBelow_elementAt`, `Mention.sameBelow_ofAttributeAt`: walks with different bounds;
* `Mention.withinAt`, `Mention.within`: the mentions in a window, with a bound and without.
-/

namespace JarRename

namespace Walk

variable {α β : Type} {length : Nat}

/-! ### Walks that put no bytes back -/

/-- The walk leaves no more bytes than there were. -/
def Forward (walk : Walk α) : Prop :=
  ∀ cursor value final, walk cursor = .ok (value, final) → final.window.length ≤ cursor.window.length

theorem Agrees.forward {walk other : Walk α} (agrees : Agrees walk other) : Forward walk := by
  rintro ⟨offset, window⟩ value final done
  obtain ⟨taken, rest, rfl, rfl, -⟩ := agrees _ _ _ _ done
  rw [List.length_append]
  exact Nat.le_add_left _ _

theorem Retraces.forward {pool : Pool} {owner : String} {alike : Symbol → Index → Symbol → Prop}
    {walk other : Walk (List Mention)} (retraces : Retraces pool owner alike walk other) : Forward walk := by
  rintro ⟨offset, window⟩ value final done
  obtain ⟨pieces, rest, rfl, rfl, -⟩ := retraces _ _ _ _ done
  rw [List.length_append]
  exact Nat.le_add_left _ _

theorem forward_check (outcome : Except Fault α) : Forward (check outcome) := by
  have agrees : Agrees (check outcome) (check outcome) := .check fun _ => id
  exact agrees.forward

theorem forward_nested (length : Nat) : Forward (nested length) := by
  rintro ⟨offset, window⟩ inner final done
  obtain ⟨taken, rest, -, -, -, rfl⟩ := nested_eq_ok.mp done
  exact Nat.le_refl _

theorem Forward.bind {first : Walk α} {next : α → Walk β} (forward : Forward first)
    (nextForward : ∀ value, Forward (next value)) : Forward (first >>= next) := by
  intro cursor value final done
  obtain ⟨middle, between, step, done⟩ := run_bind_eq_ok.mp done
  exact Nat.le_trans (nextForward middle _ _ _ done) (forward _ _ _ step)

/-! ### Walks that agree on short windows -/

/-- The walks agree, failures included, where the window is shorter than a length. -/
def SameBelow (length : Nat) (walk other : Walk α) : Prop :=
  ∀ cursor, cursor.window.length < length → walk cursor = other cursor

theorem SameBelow.refl (walk : Walk α) : SameBelow length walk walk :=
  fun _ _ => rfl

theorem SameBelow.zero (walk other : Walk α) : SameBelow 0 walk other :=
  fun _ short => absurd short (Nat.not_lt_zero _)

theorem SameBelow.ite {condition : Prop} [Decidable condition] {walk other second otherSecond : Walk α}
    (yes : SameBelow length walk other) (no : SameBelow length second otherSecond) :
    SameBelow length (if condition then walk else second) (if condition then other else otherSecond) := by
  split
  · exact yes
  · exact no

theorem SameBelow.bind {first other : Walk α} {next otherNext : α → Walk β} (same : SameBelow length first other)
    (forward : Forward first) (nextSame : ∀ value, SameBelow length (next value) (otherNext value)) :
    SameBelow length (first >>= next) (other >>= otherNext) := by
  intro cursor short
  rw [run_bind, run_bind, ← same cursor short]
  cases done : first cursor with
  | error cause => rfl
  | ok result =>
    obtain ⟨value, final⟩ := result
    exact nextSame value final (Nat.lt_of_le_of_lt (forward _ _ _ done) short)

/-- Walks that agree after the same steps. -/
theorem SameBelow.after {first : Walk α} {next otherNext : α → Walk β} (forward : Forward first)
    (nextSame : ∀ value, SameBelow length (next value) (otherNext value)) :
    SameBelow length (first >>= next) (first >>= otherNext) :=
  (SameBelow.refl first).bind forward nextSame

/-- Walks that agree before the same steps. -/
theorem SameBelow.before {walk other : Walk α} {next : α → Walk β} (same : SameBelow length walk other) :
    SameBelow length (walk >>= next) (other >>= next) := by
  intro cursor short
  rw [run_bind, run_bind, same cursor short]

/-- A byte that is taken makes the window shorter. -/
theorem SameBelow.after_u8 {next otherNext : UInt8 → Walk β}
    (nextSame : ∀ value, SameBelow length (next value) (otherNext value)) :
    SameBelow (length + 1) (u8 >>= next) (u8 >>= otherNext) := by
  rintro ⟨offset, window⟩ short
  match window with
  | [] => rfl
  | byte :: rest => exact nextSame byte ⟨offset + 1, rest⟩ (Nat.lt_of_succ_lt_succ short)

/-- So does a number of two bytes. -/
theorem SameBelow.after_u16 {next otherNext : UInt16 → Walk β}
    (nextSame : ∀ value, SameBelow length (next value) (otherNext value)) :
    SameBelow (length + 1) (u16 >>= next) (u16 >>= otherNext) := by
  rintro ⟨offset, window⟩ short
  match window with
  | [] | [_] => rfl
  | high :: low :: rest =>
    exact nextSame (Bytes.word16 high low) ⟨offset + 2, rest⟩ (Nat.lt_of_succ_lt (Nat.lt_of_succ_lt_succ short))

theorem SameBelow.timesFrom {walk other : Walk α} (same : SameBelow length walk other) (forward : Forward walk)
    (found : List α) (count : Nat) : SameBelow length (timesFrom walk found count) (timesFrom other found count) := by
  induction count generalizing found with
  | zero => exact .refl _
  | succ count ih => exact same.bind forward fun value => ih (value :: found)

theorem Forward.timesFrom {walk : Walk α} (forward : Forward walk) (found : List α) (count : Nat) :
    Forward (timesFrom walk found count) := by
  induction count generalizing found with
  | zero => exact (Agrees.pure found.reverse).forward
  | succ count ih => exact forward.bind fun value => ih (value :: found)

theorem SameBelow.concat {walk other : Walk (List α)} (same : SameBelow length walk other) (forward : Forward walk)
    (count : Nat) : SameBelow length (concat count walk) (concat count other) :=
  (same.timesFrom forward [] count).before

theorem SameBelow.table {walk other : Walk (List α)} (same : SameBelow length walk other) (forward : Forward walk) :
    SameBelow length (table walk) (table other) :=
  .after Agrees.u16.forward fun count => same.concat forward count.toNat

end Walk

namespace Mention

open Walk (SameBelow Forward)

variable (pool : Pool) (owner : String) (inMethod : Bool) {α : Type} {length : Nat}

/-! ### Values of annotations -/

theorem forward_elementAt (depth : Nat) : Forward (elementAt pool depth) :=
  ((account_self pool "").elementAt_retraces depth).forward

theorem sameBelow_marker {value other : Walk (List Mention)} (same : SameBelow length value other)
    (forward : Forward value) : SameBelow length (marker pool value) (marker pool other) := by
  have skip : Forward (Walk.skip 2) := (Walk.Agrees.skip 2).forward
  refine .after (account_self pool "").descriptor_retraces.forward fun _ => .before ?_
  exact SameBelow.table (.after skip fun _ => same) (skip.bind fun _ => forward)

theorem sameBelow_typeMarker {value other : Walk (List Mention)} (same : SameBelow length value other)
    (forward : Forward value) : SameBelow length (typeMarker pool value) (typeMarker pool other) :=
  .after Account.target_agrees.forward fun _ => .after Walk.Agrees.u8.forward fun _ =>
    .after (Walk.Agrees.skip _).forward fun _ => sameBelow_marker pool same forward

/-- **Values are walked alike below both bounds.** The tag of a value is taken before the values in it. -/
theorem sameBelow_elementAt {depth other : Nat} (deep : length ≤ depth) (otherDeep : length ≤ other) :
    SameBelow length (elementAt pool depth) (elementAt pool other) := by
  induction depth generalizing length other with
  | zero =>
    obtain rfl := Nat.le_zero.mp deep
    exact .zero _ _
  | succ depth ih =>
    match length, other with
    | 0, _ => exact .zero _ _
    | length + 1, other + 1 =>
      have same := ih (Nat.le_of_succ_le_succ deep) (Nat.le_of_succ_le_succ otherDeep)
      have forward := forward_elementAt pool depth
      refine .after_u8 fun tag => ?_
      refine .ite (.refl _) (.ite (.refl _) (.ite (.refl _) (.ite ?_ (.ite ?_ (.refl _)))))
      · exact sameBelow_marker pool same forward
      · exact same.table forward

/-! ### Nested attributes -/

variable {visit other : String → Cursor → Except Fault α}

theorem forward_ofNestedOne (visit : String → Cursor → Except Fault α) : Forward (ofNestedOne pool visit) := by
  refine Walk.Agrees.u16.forward.bind fun _ => (Walk.forward_check _).bind fun _ => ?_
  refine Walk.Agrees.u32.forward.bind fun length => (Walk.forward_nested length).bind fun _ => ?_
  refine (Walk.forward_check _).bind fun found => ?_
  exact (Walk.Agrees.skip length).forward.bind fun _ => (Walk.Agrees.pure found).forward

/-- The window of a nested attribute is no longer than what is left. -/
theorem sameBelow_ofNestedOne
    (same : ∀ name cursor, cursor.window.length < length → visit name cursor = other name cursor) :
    SameBelow length (ofNestedOne pool visit) (ofNestedOne pool other) := by
  refine .after Walk.Agrees.u16.forward fun _ => .after (Walk.forward_check _) fun name => ?_
  refine .after Walk.Agrees.u32.forward fun size => ?_
  rintro ⟨offset, window⟩ short
  cases done : Walk.nested size ⟨offset, window⟩ with
  | error cause =>
    rw [run_bind, run_bind, done]
    rfl
  | ok result =>
    obtain ⟨inner, final⟩ := result
    obtain ⟨taken, rest, -, rfl, rfl, rfl⟩ := Walk.nested_eq_ok.mp done
    have shorter : taken.length < length := by
      rw [List.length_append] at short
      exact Nat.lt_of_le_of_lt (Nat.le_add_right _ _) short
    rw [run_bind_of_ok done, run_bind_of_ok done, same name ⟨offset, taken⟩ shorter]

theorem forward_ofNested (visit : String → Cursor → Except Fault α) : Forward (ofNested pool visit) :=
  Walk.Agrees.u16.forward.bind fun count => (forward_ofNestedOne pool visit).timesFrom [] count.toNat

/-- The number of nested attributes is taken before them. -/
theorem sameBelow_ofNested
    (same : ∀ name cursor, cursor.window.length < length → visit name cursor = other name cursor) :
    SameBelow (length + 1) (ofNested pool visit) (ofNested pool other) :=
  .after_u16 fun count => (sameBelow_ofNestedOne pool same).timesFrom (forward_ofNestedOne pool visit) [] count.toNat

/-! ### Attributes -/

/-- The mentions in the window of an attribute of a name, where attributes nest less than `depth` times. -/
def withinAt (pool : Pool) (owner : String) (inMethod : Bool) (depth : Nat) (name : String) (cursor : Cursor) :
    Except Fault (List Mention) := do
  let (found, _) ← ofAttributeAt pool owner inMethod depth name cursor
  return found

/-- The mentions in the window of an attribute of a name. -/
def within (pool : Pool) (owner : String) (inMethod : Bool) (name : String) (cursor : Cursor) :
    Except Fault (List Mention) :=
  withinAt pool owner inMethod (cursor.window.length + 1) name cursor

/-- **Attributes are walked alike below both bounds**, through their nested attributes too. -/
theorem sameBelow_ofAttributeAt {depth other : Nat} (deep : length ≤ depth) (otherDeep : length ≤ other)
    (name : String) :
    SameBelow length (ofAttributeAt pool owner inMethod depth name) (ofAttributeAt pool owner inMethod other name) := by
  induction depth generalizing length other name with
  | zero =>
    obtain rfl := Nat.le_zero.mp deep
    exact .zero _ _
  | succ depth ih =>
    match length, other with
    | 0, _ => exact .zero _ _
    | length + 1, other + 1 =>
      have account := account_self pool owner
      have element := sameBelow_elementAt pool deep otherDeep
      have retraces := account.elementAt_retraces (depth + 1)
      have marker := sameBelow_marker pool element retraces.forward
      have markers := marker.table (account.marker_retraces retraces).forward
      have typeMarker := sameBelow_typeMarker pool element retraces.forward
      have typeMarkers := typeMarker.table (account.typeMarker_retraces retraces).forward
      have nested : SameBelow (length + 1)
          (ofNested pool (withinAt pool owner inMethod depth))
          (ofNested pool (withinAt pool owner inMethod other)) := by
        refine sameBelow_ofNested pool fun name cursor short => ?_
        unfold withinAt
        rw [ih (Nat.le_of_succ_le_succ deep) (Nat.le_of_succ_le_succ otherDeep) name cursor short]
      -- only annotations and nested attributes are walked with the bounds
      refine .ite (.refl _) (.ite (.refl _) (.ite (.refl _) (.ite (.refl _) (.ite (.refl _) ?_))))
      refine .ite markers (.ite ?_ (.ite typeMarkers (.ite element (.ite ?_ (.ite ?_ (.refl _))))))
      · have forward := (account.marker_retraces retraces).table.forward
        exact .after Walk.Agrees.u8.forward fun count => markers.concat forward count.toNat
      · have component := account.component_retraces.forward
        refine SameBelow.table (.after component fun _ => nested.before) (component.bind fun found => ?_)
        exact (forward_ofNested pool _).bind fun _ => (Walk.Agrees.pure _).forward
      · exact .after Account.beforeNested_agrees.forward fun _ => nested.before

/-- **No bound above the length of the window matters.** -/
theorem withinAt_eq {depth : Nat} {name : String} {cursor : Cursor} (deep : cursor.window.length < depth) :
    withinAt pool owner inMethod depth name cursor = within pool owner inMethod name cursor := by
  unfold within withinAt
  rw [sameBelow_ofAttributeAt pool owner inMethod deep (Nat.le_refl _) name cursor (Nat.lt_succ_self _)]

end Mention

end JarRename
