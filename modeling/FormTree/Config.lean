import FormTree.Literal
import FormTree.Text.Blank

/-!
# The spacing policy

Two settings say how a cursor treats formatting: the text that is put
between forms, which has to be blank, and whether comments are passed over
like white space. A policy is these settings together with the converter
through which values enter and leave the tree.
-/

namespace FormTree

/-- **The settings of a cursor.** -/
structure Config where
  /-- The text of the white space put between forms. -/
  separator : Text
  /-- Whether comments are insignificant. -/
  skipComments : Bool
  /-- The separator is blank text. -/
  isBlank_separator : separator.isBlank = true

namespace Config

/-- One space between forms, and comments passed over. -/
def standard : Config := ⟨" ", true, by decide⟩

/-- **Whether nodes of a kind are insignificant.** -/
def ignores (cfg : Config) (k : Kind) : Bool :=
  match k with
  | .whitespace => true
  | .comment => cfg.skipComments
  | _ => false

/-- The insignificant kinds, in alphabetical order. -/
def ignoredKinds (cfg : Config) : List Kind :=
  [Kind.comment, Kind.whitespace].filter cfg.ignores

/-- **Whether a value is insignificant**: a node of an insignificant
kind. -/
def isInsignificant (cfg : Config) (v : Value) : Bool :=
  match v.kind? with
  | some k => cfg.ignores k
  | none => false

/-- The white space that is put between forms. -/
def space (cfg : Config) : Value := .node (.whitespace cfg.separator)

/-- The white space put between forms is insignificant. -/
@[simp] theorem isInsignificant_space (cfg : Config) :
    cfg.isInsignificant cfg.space = true := rfl

end Config

/-- **A policy**: the settings and the converter a cursor works with. -/
structure Policy where
  /-- The settings. -/
  config : Config
  /-- The converter. -/
  converter : Converter

namespace Policy

/-- The policy of a choice of settings and converter. Without a converter
literals are used, with the separator of the settings. -/
def choose (config : Option Config) (converter : Option Converter) :
    Policy :=
  let config := config.getD .standard
  ⟨config, converter.getD (.literal config.separator)⟩

/-- The policy when nothing is chosen. -/
def standard : Policy := choose none none

/-- **What is put into the tree** for an item: a node as it is, and the
node the converter makes of a value. -/
def itemFor (policy : Policy) (item : Value) : Except Failure Value :=
  if item.isNode then .ok item else policy.converter.toNode item

end Policy

end FormTree
