import Silly.Proofs.Table
import Silly.Value.Display
import Silly.Value.Operation

/-!
# Values with and without a heap

A value whose strings are handles stands for the value whose strings are the texts behind them. What
it stands for depends on the heap (`Value.plain`), and makes sense only where the heap has given out
all of its handles (`Value.Valid`).

A heap only grows. Where `Heap.Extends h h'` holds, a value that is valid in `h` is valid in `h'` and
stands for the same there (`Value.Valid.of_extends`, `Value.Valid.plain_of_extends`). So values that
were made earlier need no care when a new string is made.
-/

namespace Silly

/-! ### Heaps that grow -/

namespace Heap

variable {h h' h'' : Heap} {s : String} {x : Handle}

/-- Every text that has a handle in `h` has the same handle in `h'`. -/
def Extends (h h' : Heap) : Prop := h.table.Extends h'.table

theorem Extends.refl (h : Heap) : h.Extends h := TextTable.Extends.refl _

theorem Extends.trans (hh : h.Extends h') (hh' : h'.Extends h'') : h.Extends h'' :=
  TextTable.Extends.trans hh hh'

/-- **A heap grows** with each text that comes in. -/
theorem extends_intern (h : Heap) (s : String) : h.Extends (h.intern s).2 :=
  TextTable.extends_intern _ s

theorem text?_intern (h : Heap) (s : String) : (h.intern s).2.text? (h.intern s).1 = some s :=
  TextTable.text?_intern h.table s

theorem text?_of_extends (hh : h.Extends h') (hx : h.text? x = some s) : h'.text? x = some s :=
  TextTable.text?_of_extends hh hx

/-- **A heap holds no text twice.** -/
theorem texts_nodup (h : Heap) : h.table.texts.toList.Nodup := h.table.texts_nodup

/-- The text of a handle that the heap has given out. -/
def read (h : Heap) (x : Handle) : String := (h.text? x).getD ""

theorem text_eq (hx : (h.text? x).isSome) : StringStore.text h x = .ok (h.read x) := by
  obtain ⟨s, hs⟩ := Option.isSome_iff_exists.mp hx
  have htext : StringStore.text h x = Outcome.ofOption (.handle x.index) (h.text? x) := rfl
  rw [htext, read, hs]
  rfl

end Heap

/-- A string that carries its text is read without a heap. -/
@[simp] theorem text_unit (s : String) : StringStore.text () s = .ok s := rfl

/-! ### What a value stands for -/

namespace Value

variable {σ τ : Type} {h h' : Heap}

mutual
/-- The value with each string in it changed. -/
def map (f : σ → τ) : Value σ → Value τ
  | int n => int n
  | str s => str (f s)
  | bool b => bool b
  | list items => list (mapItems f items)

/-- Values with each string in them changed. -/
def mapItems (f : σ → τ) : List (Value σ) → List (Value τ)
  | [] => []
  | v :: vs => v.map f :: mapItems f vs
end

@[simp] theorem mapItems_eq (f : σ → τ) (vs : List (Value σ)) : mapItems f vs = vs.map (map f) := by
  induction vs with
  | nil => rfl
  | cons v vs ih => rw [mapItems, ih, List.map_cons]

@[simp] theorem kind_map (f : σ → τ) (v : Value σ) : (v.map f).kind = v.kind := by
  cases v <;> rfl

mutual
/-- **A valid value**: the heap has given out every handle in it. -/
def Valid (h : Heap) : Value → Prop
  | int _ | bool _ => True
  | str x => (h.text? x).isSome
  | list items => itemsValid h items

/-- The heap has given out every handle in each of the values. -/
def itemsValid (h : Heap) : List Value → Prop
  | [] => True
  | v :: vs => v.Valid h ∧ itemsValid h vs
end

theorem itemsValid_iff {vs : List Value} : itemsValid h vs ↔ ∀ v ∈ vs, v.Valid h := by
  induction vs with
  | nil => simp [itemsValid]
  | cons v vs ih => simp [itemsValid, ih]

theorem itemsValid_append {vs ws : List Value} (hv : itemsValid h vs) (hw : itemsValid h ws) :
    itemsValid h (vs ++ ws) := by
  rw [itemsValid_iff] at hv hw ⊢
  exact List.forall_mem_append.mpr ⟨hv, hw⟩

/-- **What a value stands for**: the value with each handle replaced by its text. -/
def plain (h : Heap) : Value → Value String := map h.read

@[simp] theorem plain_int (n : Int64) : plain h (int n) = int n := rfl

@[simp] theorem plain_bool (b : Bool) : plain h (bool b) = bool b := rfl

@[simp] theorem plain_str (x : Handle) : plain h (str x) = str (h.read x) := rfl

@[simp] theorem plain_list (vs : List Value) : plain h (list vs) = list (vs.map (plain h)) := by
  rw [plain, map, mapItems_eq]

@[simp] theorem kind_plain (v : Value) : (v.plain h).kind = v.kind := kind_map _ v

-- As `Valid` does, the next proofs go through a value and through the lists in it together.
mutual
/-- **A valid value stays valid** when the heap grows. -/
theorem Valid.of_extends (hh : h.Extends h') : ∀ {v : Value}, v.Valid h → v.Valid h'
  | int _, _ | bool _, _ => trivial
  | str _, hv => by
    obtain ⟨s, hs⟩ := Option.isSome_iff_exists.mp hv
    exact Option.isSome_iff_exists.mpr ⟨s, Heap.text?_of_extends hh hs⟩
  | list vs, hv => by
    have hitems : itemsValid h vs := hv
    exact itemsValid_of_extends hh hitems

theorem itemsValid_of_extends (hh : h.Extends h') :
    ∀ {vs : List Value}, itemsValid h vs → itemsValid h' vs
  | [], _ => trivial
  | _ :: _, hv => ⟨hv.1.of_extends hh, itemsValid_of_extends hh hv.2⟩
end

mutual
/-- A value that is valid stands for the same in each later heap. -/
theorem Valid.plain_of_extends (hh : h.Extends h') :
    ∀ {v : Value}, v.Valid h → v.plain h' = v.plain h
  | int _, _ | bool _, _ => rfl
  | str x, hv => by
    obtain ⟨s, hs⟩ := Option.isSome_iff_exists.mp hv
    rw [plain_str, plain_str, Heap.read, Heap.read, hs, Heap.text?_of_extends hh hs]
  | list vs, hv => by
    rw [plain_list, plain_list, plain_items_of_extends hh hv]

/-- So do the items of a list. -/
theorem plain_items_of_extends (hh : h.Extends h') :
    ∀ {vs : List Value}, itemsValid h vs → vs.map (plain h') = vs.map (plain h)
  | [], _ => rfl
  | v :: vs, hv => by
    rw [List.map_cons, List.map_cons, hv.1.plain_of_extends hh, plain_items_of_extends hh hv.2]
end

/-! ### What is read off values

The order of values and their texts look at a string's text and not at its handle, so they are those
of what the values stand for. -/

mutual
/-- **Values are compared** by what they stand for. -/
theorem compare_plain : ∀ {v w : Value}, v.Valid h → w.Valid h →
    (v.plain h).compare () (w.plain h) = v.compare h w
  | int _, int _, _, _ | bool _, bool _, _, _ => rfl
  | str x, str y, hx, hy => by
    rw [plain_str, plain_str, compare, compare, Heap.text_eq hx, Heap.text_eq hy]
    rfl
  | list vs, list ws, hv, hw => by
    rw [plain_list, plain_list, compare, compare, compareItems_plain hv hw]
  -- Two kinds are compared as such, and `plain` keeps the kind.
  | int _, str _, _, _ | int _, bool _, _, _ | int _, list _, _, _
  | str _, int _, _, _ | str _, bool _, _, _ | str _, list _, _, _
  | bool _, int _, _, _ | bool _, str _, _, _ | bool _, list _, _, _
  | list _, int _, _, _ | list _, str _, _, _ | list _, bool _, _, _ => by simp [compare, kind]

/-- So are lists, item by item. -/
theorem compareItems_plain : ∀ {vs ws : List Value}, itemsValid h vs → itemsValid h ws →
    compareItems () (vs.map (plain h)) (ws.map (plain h)) = compareItems h vs ws
  | [], [], _, _ | [], _ :: _, _, _ | _ :: _, [], _, _ => rfl
  | v :: vs, w :: ws, hv, hw => by
    rw [List.map_cons, List.map_cons, compareItems, compareItems, compare_plain hv.1 hw.1,
      compareItems_plain hv.2 hw.2]
end

mutual
/-- **A value has the text** of what it stands for. -/
theorem literal_plain : ∀ {v : Value}, v.Valid h → (v.plain h).literal () = v.literal h
  | int _, _ | bool _, _ => rfl
  | str x, hx => by
    rw [plain_str, literal, literal, Heap.text_eq hx]
    rfl
  | list vs, hv => by
    rw [plain_list, literal, literal, literals_plain hv]

/-- So have the items of a list. -/
theorem literals_plain : ∀ {vs : List Value}, itemsValid h vs →
    literals () (vs.map (plain h)) = literals h vs
  | [], _ => rfl
  | v :: vs, hv => by
    rw [List.map_cons, literals, literals, literal_plain hv.1, literals_plain hv.2]
end

/-- What is printed of a value is what is printed of what it stands for. -/
theorem printed_plain {v : Value} (hv : v.Valid h) : (v.plain h).printed () = v.printed h := by
  cases v with
  | str x =>
    rw [plain_str, printed, printed, Heap.text_eq hv]
    rfl
  | int | bool => rfl
  | list vs =>
    -- Only a string that is printed by itself goes without quotes, and a list is none.
    rw [plain_list, printed, printed, ← plain_list, literal_plain hv]
    · simp
    · simp

end Value

/-! ### Operators -/

/-- **A computation with a heap and the one without.** The heap grows, what is computed is valid in
the new heap, and it stands for what is computed without a heap. -/
structure Tracks {α β : Type} (valid : Heap → α → Prop) (plain : Heap → α → β) (h : Heap)
    (r : Outcome α × Heap) (r' : Outcome β × Unit) : Prop where
  extends_heap : h.Extends r.2
  valid : ∀ a, r.1 = .ok a → valid r.2 a
  plain : r'.1 = r.1.map (plain r.2)

/-- The computation of a value. -/
abbrev TracksValue := Tracks Value.Valid Value.plain

/-- The computation of the items of a list. -/
abbrev TracksItems := Tracks Value.itemsValid fun h vs => vs.map (Value.plain h)

namespace Tracks

section

variable {α β : Type} {valid : Heap → α → Prop} {plain : Heap → α → β} {h h' : Heap}
  {r : Outcome α × Heap} {r' : Outcome β × Unit}

theorem error (s : Stop) : Tracks valid plain h (.error s, h) (.error s, ()) :=
  ⟨.refl h, nofun, rfl⟩

theorem ok {a : α} (ha : valid h a) : Tracks valid plain h (.ok a, h) (.ok (plain h a), ()) :=
  ⟨.refl h, fun w hw => by cases hw; exact ha, rfl⟩

/-- A computation in a heap that has grown is one in the heap from which it has grown. -/
theorem of_extends (hh : h.Extends h') (ht : Tracks valid plain h' r r') :
    Tracks valid plain h r r' :=
  ⟨hh.trans ht.extends_heap, ht.valid, ht.plain⟩

/-- **The two ways in which a computation ends**, which are the same with a heap and without. -/
theorem cases (ht : Tracks valid plain h r r') :
    (∃ s h', r = (.error s, h') ∧ r' = (.error s, ()) ∧ h.Extends h') ∨
      ∃ a h', r = (.ok a, h') ∧ r' = (.ok (plain h' a), ()) ∧ h.Extends h' ∧ valid h' a := by
  obtain ⟨r, h'⟩ := r
  obtain ⟨r', u⟩ := r'
  obtain ⟨hh, hvalid, hplain⟩ := ht
  cases r with
  | error s => exact .inl ⟨s, h', rfl, congrArg (·, ()) hplain, hh⟩
  | ok a => exact .inr ⟨a, h', rfl, congrArg (·, ()) hplain, hh, hvalid a rfl⟩

end

variable {h : Heap}

/-- A new string. -/
theorem newString (text : Outcome String) :
    TracksValue h (BinaryOp.newString h text) (BinaryOp.newString () text) := by
  cases text with
  | error e => exact error e
  | ok s =>
    -- Whether the text has just come in or was there, the new heap has it at the handle.
    have htext := Heap.text?_intern h s
    refine ⟨Heap.extends_intern h s, ?_, ?_⟩
    · rintro v hv
      cases hv
      exact Option.isSome_iff_exists.mpr ⟨s, htext⟩
    · have hread : (h.intern s).2.read (h.intern s).1 = s := by
        rw [Heap.read, htext, Option.getD_some]
      show Except.ok (Value.str s) = Except.ok (Value.str ((h.intern s).2.read (h.intern s).1))
      rw [hread]

end Tracks

section Operators

variable {h : Heap} {a b : Value}

/-- The length of a sequence is the same with a heap and without. -/
theorem tracks_lengthValue (n : Nat) : TracksValue h (lengthValue n, h) (lengthValue n, ()) := by
  rw [lengthValue, lengthValue]
  -- The same number is brought into range on both sides, and it does not matter whether it fits.
  generalize Integer.exactly? n = r
  cases r with
  | some m => exact .ok (a := Value.int m) trivial
  | none => exact .error _

/-- **A unary operator does the same to what a value stands for.** -/
theorem UnaryOp.tracks_apply (op : UnaryOp) (ha : a.Valid h) :
    TracksValue h (op.apply h a, h) (op.apply () (a.plain h), ()) := by
  cases op with
  | not =>
    cases a with
    | bool b => exact .ok (a := Value.bool !b) trivial
    | list vs =>
      rw [Value.plain_list]
      exact .error _
    | int | str => exact .error _
  | len =>
    cases a with
    | str x =>
      rw [Value.plain_str, apply, apply, Heap.text_eq ha, text_unit, Except.bind, Except.bind]
      exact tracks_lengthValue _
    | list vs =>
      rw [Value.plain_list, apply, apply, List.length_map]
      exact tracks_lengthValue vs.length
    | int | bool => exact .error _

namespace BinaryOp

variable (op : BinaryOp)

theorem tracks_mismatch : TracksValue h (op.mismatch a b, h) (op.mismatch (a.plain h) (b.plain h), ()) := by
  rw [mismatch, mismatch, Value.kind_plain, Value.kind_plain]
  exact .error _

/-- Two values that are compared. -/
theorem tracks_compareValues (ha : a.Valid h) (hb : b.Valid h) :
    TracksValue h (op.compareValues h a b, h)
      (op.compareValues () (a.plain h) (b.plain h), ()) := by
  rw [compareValues, compareValues, Value.kind_plain, Value.kind_plain, Value.compare_plain ha hb]
  split
  · cases a.compare h b with
    | error s => exact .error s
    | ok o => exact .ok trivial
  · exact op.tracks_mismatch

theorem tracks_computed (r : Except ArithmeticError Int64) :
    TracksValue h (op.computed r, h) (op.computed r, ()) := by
  cases r with
  | ok n => exact .ok trivial
  | error e => exact .error _

theorem tracks_integers (m n : Int64) :
    TracksValue h (op.integers m n, h) (op.integers m n, ()) := by
  cases op with
  | add | mul | div | mod | pow => exact tracks_computed _ _
  | _ => exact .error _

theorem tracks_booleans (p q : Bool) : TracksValue h (op.booleans p q, h) (op.booleans p q, ()) := by
  cases op with
  | and | or => exact .ok trivial
  | _ => exact .error _

theorem joined_plain {x y : Handle} (hx : (h.text? x).isSome) (hy : (h.text? y).isSome) :
    joined () (h.read x) (h.read y) = joined h x y := by
  rw [joined, joined, Heap.text_eq hx, Heap.text_eq hy]
  rfl

theorem charAt_plain {x : Handle} (hx : (h.text? x).isSome) (i : Int64) :
    charAt () (h.read x) i = charAt h x i := by
  rw [charAt, charAt, Heap.text_eq hx]
  rfl

/-- **An item of a list** stands for the item at the same place. -/
theorem tracks_itemAt {vs : List Value} (hv : Value.itemsValid h vs) (i : Int64) :
    TracksValue h (itemAt vs i, h) (itemAt (vs.map (·.plain h)) i, ()) := by
  -- The two lists are equally long, so an index is in range of both or of none.
  rw [itemAt_map]
  obtain ⟨n, hn, -, hitem⟩ | ⟨hfail, -⟩ := itemAt_cases vs i
  · rw [hitem]
    exact .ok (Value.itemsValid_iff.mp hv _ (List.get_mem _ _))
  · rw [hfail]
    exact .error _

/-- **A binary operator does the same to what two values stand for.** -/
theorem tracks_apply (ha : a.Valid h) (hb : b.Valid h) :
    TracksValue h (op.apply a b h) (op.apply (a.plain h) (b.plain h) ()) := by
  unfold apply
  by_cases hop : op.isComparison = true
  · rw [if_pos hop, if_pos hop]
    exact op.tracks_compareValues ha hb
  · rw [if_neg hop, if_neg hop]
    -- What the operator does depends on the two kinds, which are the same on both sides.
    cases a with
    | int m =>
      cases b with
      | int n => exact op.tracks_integers m n
      | str | bool | list => exact op.tracks_mismatch
    | bool p =>
      cases b with
      | bool q => exact op.tracks_booleans p q
      | int | str | list => exact op.tracks_mismatch
    | str x =>
      cases b with
      | str y =>
        -- A new string is made, and its handle is that of the joined text.
        by_cases hadd : op = add
        · simp only [Value.plain_str, if_pos hadd, joined_plain ha hb]
          exact .newString _
        · simp only [Value.plain_str, if_neg hadd]
          exact op.tracks_mismatch
      | int i =>
        by_cases hindex : op = index
        · simp only [Value.plain_str, Value.plain_int, if_pos hindex, charAt_plain ha]
          exact .newString _
        · simp only [Value.plain_str, if_neg hindex]
          exact op.tracks_mismatch
      | bool | list => exact op.tracks_mismatch
    | list xs =>
      cases b with
      | list ys =>
        -- The items of both lists were valid, so those of the list are.
        by_cases hadd : op = add
        · simp only [Value.plain_list, if_pos hadd, ← List.map_append]
          rw [← Value.plain_list]
          exact .ok (Value.itemsValid_append ha hb)
        · simp only [Value.plain_list, if_neg hadd]
          exact op.tracks_mismatch
      | int i =>
        by_cases hindex : op = index
        · simp only [Value.plain_list, Value.plain_int, if_pos hindex]
          exact tracks_itemAt ha i
        · simp only [Value.plain_list, if_neg hindex]
          exact op.tracks_mismatch
      | str | bool => exact op.tracks_mismatch

end BinaryOp

end Operators

end Silly
