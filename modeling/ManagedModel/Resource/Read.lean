import ManagedModel.Resource.Change

/-! # Reading resources

    * `Resource.readAttribute` gives the stored value of an attribute, or its
      default, or undefined.
    * `Resource.readAll` gives a resource as an object: its attributes, with
      defaults filled in where asked, and for a recursive read its children,
      grouped by the key of their last element and listed by its value. An
      entry that an attribute occupies already keeps the attribute; children
      are put into it only if it holds an object.
    * `Resource.readChildrenNames` lists the values of the children with a
      given key. -/

namespace ManagedModel

namespace Tree

/-- The length of the longest address. -/
def depth (t : Tree) : Nat := (t.nodes.keys.map Address.length).foldr Nat.max 0

theorem length_le_foldr_max {a : Address} :
    ∀ {as : List Address}, a ∈ as → a.length ≤ (as.map Address.length).foldr Nat.max 0
  | b :: as, h => by
    rcases List.mem_cons.1 h with rfl | h
    · exact Nat.le_max_left _ _
    · exact Nat.le_trans (length_le_foldr_max h) (Nat.le_max_right _ _)

theorem mem_keys_of_mem_children {t : Tree} {a b : Address} (h : b ∈ t.children a) :
    b ∈ t.nodes.keys :=
  (List.dropWhile_sublist _).subset
    ((List.takeWhile_sublist _).subset (List.mem_filter.1 h).1)

theorem length_of_mem_children {t : Tree} {a b : Address} (h : b ∈ t.children a) :
    b.length = a.length + 1 := by
  simpa using (List.mem_filter.1 h).2

theorem length_le_depth {t : Tree} {a b : Address} (h : b ∈ t.children a) :
    b.length ≤ t.depth :=
  length_le_foldr_max (mem_keys_of_mem_children h)

/-- Puts the description of a child into that of its parent. -/
def addChild (fields : Attributes) (child : Address) (description : Value) : Attributes :=
  match child.last? with
  | none => fields
  | some element =>
    match fields.get? element.key with
    | none => fields.insert element.key (.object [(element.value, description)])
    | some (.object group) =>
      fields.insert element.key (.object (Entries.insert element.value description group))
    | some _ => fields

/-- The description of a resource and of everything below it; `own` describes a resource
    alone. -/
def describe (t : Tree) (own : Address → Attributes) (a : Address) : Attributes :=
  (t.children a).attach.foldl
    (fun fields b => addChild fields b.1 (.ofAttributes (t.describe own b.1))) (own a)
termination_by t.depth - a.length
decreasing_by
  have h₁ := length_of_mem_children b.2
  have h₂ := length_le_depth b.2
  omega

end Tree

namespace Resource

variable {S : Signature}

/-! ### Names of parameters -/

/-- The parameter that asks for children too. -/
def recursiveParameter : String := "recursive"

/-- The parameter that asks for defaults. -/
def includeDefaultsParameter : String := "include-defaults"

/-- The parameter that names a type of children. -/
def childTypeParameter : String := "child-type"

/-! ### Programs -/

/-- The value of a boolean parameter. -/
def flag (op : Operation) (name : String) (dflt : Bool) : Bool :=
  ((op.param? name).bind Value.asBool).getD dflt

/-- Reads the attribute that the operation names. -/
def readAttribute (op : Operation) : Program S Value := do
  let name ← Program.ofExcept (namedAttribute op)
  let d ← attributeSchema op.address name
  let attributes ← Program.readAt op.address
  return (attributes.get? name <|> d.default?).getD .undefined

/-- The attributes with the defaults of those that are not there. -/
def withDefaults : List AttributeSchema → Attributes → Attributes
  | [], attributes => attributes
  | d :: defs, attributes =>
    withDefaults defs
      (match d.default? with
       | some v => if attributes.contains d.name then attributes else attributes.insert d.name v
       | none => attributes)

/-- The description of a resource alone. -/
def describeOwn (v : View S) (includeDefaults : Bool) (a : Address) : Attributes :=
  let stored := (v.working.tree.get? a).getD ∅
  match v.schema? a with
  | some schema =>
    if includeDefaults then withDefaults schema.attributes stored else stored
  | none => stored

/-- Describes the resource at the operation's address. -/
def readAll (op : Operation) : Program S Value := do
  let _ ← Program.readAt op.address
  let v ← Program.view
  let own := describeOwn v (flag op includeDefaultsParameter true)
  return .ofAttributes
    (if flag op recursiveParameter false then v.working.tree.describe own op.address
     else own op.address)

/-- The values of the children's last elements, for the children with a key. -/
def childrenNames (t : Tree) (a : Address) (key : String) : List String :=
  (t.children a).filterMap fun b =>
    b.last?.bind fun element => if element.key = key then some element.value else none

/-- Lists the children of the type that the operation names. -/
def readChildrenNames (op : Operation) : Program S Value := do
  match (op.param? childTypeParameter).bind Value.asString with
  | none => Program.fail (.validation (.missingParameter childTypeParameter))
  | some key => do
    let _ ← Program.readAt op.address
    let v ← Program.view
    return .list ((childrenNames v.working.tree op.address key).map Value.string)

end Resource

end ManagedModel
