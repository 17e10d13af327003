import Silly.Heap

/-!
# Values

What expressions evaluate to. A value is of one of four kinds, and a list may hold values of all
kinds. What a string value holds is left open. It is a handle unless something else is said. Values
are compared in two ways: `Value.same` asks whether two values are the same value, and the order of
`Silly.Value.Order` relates values of one kind.
-/

namespace Silly

/-- **Values**, with strings of type `σ`. -/
inductive Value (σ : Type := Handle)
  | int (n : Int64)
  | str (s : σ)
  | bool (b : Bool)
  | list (items : List (Value σ))

/-- The four kinds of values. -/
inductive Kind
  | integer | string | boolean | list
  deriving DecidableEq

/-- The kind as messages show it. -/
def Kind.text : Kind → String
  | integer => "integer"
  | string => "string"
  | boolean => "boolean"
  | list => "list"

namespace Value

variable {σ : Type}

/-- What kind of value it is. -/
def kind : Value σ → Kind
  | int _ => .integer
  | str _ => .string
  | bool _ => .boolean
  | list _ => .list

section Same

variable [DecidableEq σ]

mutual
/-- **Whether two values are the same value**: the same integer, boolean or string, or lists of
the same values. -/
def same : Value σ → Value σ → Bool
  | int a, int b => a = b
  | str a, str b => a = b
  | bool a, bool b => a = b
  | list as, list bs => sameItems as bs
  | _, _ => false

/-- Whether two lists hold the same values. -/
def sameItems : List (Value σ) → List (Value σ) → Bool
  | [], [] => true
  | a :: as, b :: bs => a.same b && sameItems as bs
  | _, _ => false
end

mutual
theorem eq_of_same : ∀ {a b : Value σ}, a.same b = true → a = b
  | int _, int _, h => by simpa [same] using h
  | str _, str _, h => by simpa [same] using h
  | bool _, bool _, h => by simpa [same] using h
  | list as, list bs, h => congrArg list (eq_of_sameItems (by simpa [same] using h))
  | int _, str _, h | int _, bool _, h | int _, list _, h
  | str _, int _, h | str _, bool _, h | str _, list _, h
  | bool _, int _, h | bool _, str _, h | bool _, list _, h
  | list _, int _, h | list _, str _, h | list _, bool _, h => by simp [same] at h

theorem eq_of_sameItems : ∀ {as bs : List (Value σ)}, sameItems as bs = true → as = bs
  | [], [], _ => rfl
  | _ :: _, _ :: _, h => by
    simp only [sameItems, Bool.and_eq_true] at h
    rw [eq_of_same h.1, eq_of_sameItems h.2]
  | [], _ :: _, h | _ :: _, [], h => by simp [sameItems] at h
end

mutual
theorem same_self : ∀ a : Value σ, a.same a = true
  | int _ | str _ | bool _ => by simp [same]
  | list as => by rw [same, sameItems_self as]

theorem sameItems_self : ∀ as : List (Value σ), sameItems as as = true
  | [] => rfl
  | a :: as => by rw [sameItems, same_self a, sameItems_self as]; rfl
end

/-- The test decides equality of values. -/
theorem same_iff {a b : Value σ} : a.same b = true ↔ a = b :=
  ⟨eq_of_same, fun h => h ▸ same_self a⟩

instance : DecidableEq (Value σ) := fun _ _ => decidable_of_iff _ same_iff

end Same

end Value

end Silly
