import CssSelect.Selector.Basic
import CssSelect.View

/-!
Compound selectors against a single node. Tests run from left to right and stop
at the first that fails, so a view is asked no more than it takes. A compound
without conditions matches every node and asks nothing.
-/
namespace CssSelect

variable {ν : Type}

namespace AttributeTest

/-- Whether an attribute with the given value passes the test. -/
def accepts (test : AttributeTest) (value : String) : Bool :=
  match test.flag with
  | some .ignoreCase => test.operator.accepts (Text.lower value) (Text.lower test.value)
  | some .exact | none => test.operator.accepts value test.value

end AttributeTest

namespace AttributeSelector

/-- Whether the selector accepts an attribute's value, or its absence. -/
def accepts (selector : AttributeSelector) : Option String → Bool
  | none => false
  | some value =>
    match selector.test with
    | none => true
    | some test => test.accepts value

end AttributeSelector

namespace SubclassSelector

/-- Whether a node meets the condition. Every node meets a pseudo-class, and none is a
pseudo-element. -/
def test (view : View ν) (node : ν) : SubclassSelector → Except Halt Bool
  | id name => view.ask node (view.id node == some name)
  | className name => view.ask node (view.hasClass node name)
  | .attribute selector => view.ask node (selector.accepts (view.attributeValue node selector.name))
  | pseudoClass _ => .ok true
  | pseudoElement _ => .ok false

end SubclassSelector

namespace CompoundSelector

/-- Whether a node meets all the conditions. -/
def testAll (view : View ν) (node : ν) : List SubclassSelector → Except Halt Bool
  | [] => .ok true
  | subclass :: others =>
    match subclass.test view node with
    | .error halt => .error halt
    | .ok false => .ok false
    | .ok true => testAll view node others

/-- Whether a node has the tag that is asked for. Tags are compared without regard to ASCII case. -/
def testType (view : View ν) (node : ν) : Option TypeSelector → Except Halt Bool
  | none | some .universal => .ok true
  | some (.tag name) =>
    view.ask node ((view.tagName node).any fun tag => Text.sameIgnoringCase tag name)

/-- Whether a node meets the whole compound. -/
def test (compound : CompoundSelector) (view : View ν) (node : ν) : Except Halt Bool :=
  match testType view node compound.type with
  | .error halt => .error halt
  | .ok false => .ok false
  | .ok true => testAll view node compound.subclasses

/-- The nodes that meet the compound, in their order. -/
def keep (compound : CompoundSelector) (view : View ν) : List ν → Except Halt (List ν)
  | [] => .ok []
  | node :: nodes =>
    match compound.test view node with
    | .error halt => .error halt
    | .ok met =>
      match compound.keep view nodes with
      | .error halt => .error halt
      | .ok kept => .ok (if met then node :: kept else kept)

/-- Whether some node meets the compound; the nodes behind it are not looked at. -/
def testAny (compound : CompoundSelector) (view : View ν) : List ν → Except Halt Bool
  | [] => .ok false
  | node :: nodes =>
    match compound.test view node with
    | .error halt => .error halt
    | .ok true => .ok true
    | .ok false => compound.testAny view nodes

end CompoundSelector

end CssSelect
