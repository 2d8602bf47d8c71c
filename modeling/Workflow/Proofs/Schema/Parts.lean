import Mathlib.Data.List.Forall2
import Workflow.Proofs.Text.Keyed
import Workflow.Schema.Value

/-!
# Parts of configuration values

The parts that a tree and a configuration value have at their paths, and that they correspond: where a tree becomes a value, each
part of the tree becomes the part of the value at the same path (`part?_toJson`). A mapping leads on to the last entry whose key has
the text of the step, for that is the one that counts.
-/

namespace Workflow

/-- A step into a value: to an item by its position, or to what stands under a name. -/
inductive Step
  | item (i : Nat)
  | key (name : String)

namespace Tree

/-- The text of a mapping key inside a configuration value, if it has one. -/
def keyText? (k : Tree) : Option String := k.keyText.toOption

/-- Where a step leads. A tagged value stands under its tag. -/
def under? : Tree → Step → Option Tree
  | .seq items, .item i => items[i]?
  | .map entries, .key name => lastUnder keyText? name entries
  | .tagged tag value, .key name => if name = "!" ++ tag then some value else none
  | _, _ => none

/-- The part at the end of a path. -/
def part? (t : Tree) : List Step → Option Tree
  | [] => some t
  | s :: path => (t.under? s).bind (·.part? path)

end Tree

namespace Json

/-- Where a step leads. -/
def under? : Json → Step → Option Json
  | .arr items, .item i => items[i]?
  | .obj entries, .key name => Keyed.get? entries name
  | _, _ => none

/-- The part at the end of a path. -/
def part? (v : Json) : List Step → Option Json
  | [] => some v
  | s :: path => (v.under? s).bind (·.part? path)

end Json

namespace Tree

/-! ## Sequences and mappings as values -/

/-- What a computation in two steps gives, its steps give. -/
theorem eq_ok_of_bind {ε α β : Type} {first : Except ε α} {next : α → Except ε β} {b : β} (h : first >>= next = .ok b) :
    ∃ a, first = .ok a ∧ next a = .ok b := by
  cases first with
  | error e => cases h
  | ok a => exact ⟨a, rfl, h⟩

/-- The items of a sequence become values one by one. -/
theorem forall₂_of_itemsToJson {ts : List Tree} {vs : List Json} (h : itemsToJson ts = .ok vs) :
    List.Forall₂ (fun t v => t.toJson = .ok v) ts vs := by
  induction ts generalizing vs with
  | nil =>
    cases h
    exact .nil
  | cons t ts ih =>
    obtain ⟨v, hv, h⟩ := eq_ok_of_bind h
    obtain ⟨rest, hrest, h⟩ := eq_ok_of_bind h
    cases h
    exact .cons hv (ih hrest)

/-- The entries of a mapping become entries under texts one by one. -/
theorem forall₂_of_entriesToJson {entries : List (Tree × Tree)} {values : List (String × Json)}
    (h : entriesToJson entries = .ok values) :
    List.Forall₂ (fun e v => e.1.keyText? = some v.1 ∧ e.2.toJson = .ok v.2) entries values := by
  induction entries generalizing values with
  | nil =>
    cases h
    exact .nil
  | cons e entries ih =>
    obtain ⟨k, t⟩ := e
    obtain ⟨key, hkey, h⟩ := eq_ok_of_bind h
    obtain ⟨v, hv, h⟩ := eq_ok_of_bind h
    obtain ⟨rest, hrest, h⟩ := eq_ok_of_bind h
    cases h
    exact .cons ⟨by rw [keyText?, hkey, Except.toOption], hv⟩ (ih hrest)

variable {t : Tree} {v : Json}

/-- A sequence becomes an array of what its items become. -/
theorem toJson_seq {items : List Tree} (h : (seq items).toJson = .ok v) :
    ∃ values, v = .arr values ∧ List.Forall₂ (fun t v => t.toJson = .ok v) items values := by
  obtain ⟨values, hvalues, h⟩ := eq_ok_of_bind h
  cases h
  exact ⟨values, rfl, forall₂_of_itemsToJson hvalues⟩

/-- A mapping becomes the object that its entries are put into one by one. -/
theorem toJson_map {entries : List (Tree × Tree)} (h : (map entries).toJson = .ok v) :
    ∃ values, v = .record values ∧
      List.Forall₂ (fun e v => e.1.keyText? = some v.1 ∧ e.2.toJson = .ok v.2) entries values := by
  obtain ⟨values, hvalues, h⟩ := eq_ok_of_bind h
  cases h
  exact ⟨values, rfl, forall₂_of_entriesToJson hvalues⟩

/-- A tagged value becomes an object with the tag as its only key. -/
theorem toJson_tagged {tag : String} {value : Tree} (h : (tagged tag value).toJson = .ok v) :
    ∃ w, v = .obj [("!" ++ tag, w)] ∧ value.toJson = .ok w := by
  obtain ⟨w, hw, h⟩ := eq_ok_of_bind h
  cases h
  exact ⟨w, rfl, hw⟩

/-! ## Parts correspond -/

/-- What corresponds to a value that is there. -/
theorem exists_of_rel {α β : Type} {R : α → β → Prop} {o : Option α} {p : Option β} (h : Option.Rel R o p) {a : α}
    (ha : o = some a) : ∃ b, p = some b ∧ R a b := by
  subst ha
  cases h with
  | some hab => exact ⟨_, rfl, hab⟩

/-- Choices between corresponding values correspond. -/
theorem or_rel {α β : Type} {R : α → β → Prop} {o o' : Option α} {p p' : Option β} (h : Option.Rel R o p)
    (h' : Option.Rel R o' p') : Option.Rel R (o.or o') (p.or p') := by
  cases h with
  | some hab => exact .some hab
  | none => exact h'

/-- Where values correspond, so do those that are gone on to from them. -/
theorem bind_rel {α β γ δ : Type} {R : α → β → Prop} {S : γ → δ → Prop} {o : Option α} {p : Option β} {f : α → Option γ}
    {g : β → Option δ} (h : Option.Rel R o p) (hnext : ∀ a b, R a b → Option.Rel S (f a) (g b)) :
    Option.Rel S (o.bind f) (p.bind g) := by
  cases h with
  | some hab => exact hnext _ _ hab
  | none => exact .none

/-- The last entries under a name correspond where all entries do. -/
theorem lastUnder_rel {read : Tree → Option String} {R : Tree → Json → Prop} {entries : List (Tree × Tree)}
    {values : List (String × Json)} (h : List.Forall₂ (fun e v => read e.1 = some v.1 ∧ R e.2 v.2) entries values)
    (name : String) : Option.Rel R (lastUnder read name entries) (lastUnder some name values) := by
  induction h with
  | nil => exact .none
  | @cons e v entries values hfirst _ ih =>
    obtain ⟨hkey, hvalue⟩ := hfirst
    have hhere : Option.Rel R (if read e.1 = some name then some e.2 else none)
        (if some v.1 = some name then some v.2 else none) := by
      rw [hkey]
      split
      · exact .some hvalue
      · exact .none
    exact or_rel ih hhere

/-- Items at one position correspond where all items do. -/
theorem getElem?_rel {R : Tree → Json → Prop} {items : List Tree} {values : List Json} (h : List.Forall₂ R items values)
    (i : Nat) : Option.Rel R items[i]? values[i]? := by
  induction h generalizing i with
  | nil => exact .none
  | cons hfirst _ ih =>
    cases i with
    | zero => exact .some hfirst
    | succ i => exact ih i

/-- What a step leads to in a tree becomes what it leads to in the value. -/
theorem under?_toJson (h : t.toJson = .ok v) (s : Step) :
    Option.Rel (fun t v => t.toJson = .ok v) (t.under? s) (v.under? s) := by
  cases t with
  | null =>
    cases h
    exact .none
  | bool b =>
    cases h
    exact .none
  | num n =>
    cases h
    cases n with
    | int n => exact .none
    | real x => cases x <;> exact .none
  | str s =>
    cases h
    exact .none
  | seq items =>
    obtain ⟨values, rfl, hvalues⟩ := toJson_seq h
    cases s with
    | item i => exact getElem?_rel hvalues i
    | key name => exact .none
  | map entries =>
    obtain ⟨values, rfl, hvalues⟩ := toJson_map h
    cases s with
    | item i => exact .none
    | key name =>
      rw [under?, Json.record, Json.under?, Keyed.get?_ofList]
      exact lastUnder_rel hvalues name
  | tagged tag value =>
    obtain ⟨w, rfl, hw⟩ := toJson_tagged h
    cases s with
    | item i => exact .none
    | key name =>
      rw [under?, Json.under?, Keyed.get?, List.find?_singleton]
      by_cases hname : name = "!" ++ tag
      · rw [if_pos hname, hname, if_pos (beq_self_eq_true _)]
        exact .some hw
      · rw [if_neg hname, if_neg (by simpa using Ne.symm hname)]
        exact .none

/-- The part of a tree at a path becomes the part of the value at that path, and where the tree has no part, the value has none. -/
theorem part?_toJson (h : t.toJson = .ok v) (path : List Step) :
    Option.Rel (fun t v => t.toJson = .ok v) (t.part? path) (v.part? path) := by
  induction path generalizing t v with
  | nil => exact .some h
  | cons s path ih =>
    exact bind_rel (under?_toJson h s) fun _ _ hpart => ih hpart

end Tree

end Workflow
