import ClientForge.Graph.Element

/-!
# Help texts

The help of commands and options, made from the documentation of the elements they stand for.
-/

namespace ClientForge.Command

open ClientForge.Graph

/-- Where a help text is shown. The help of an option is more compact than that of a command. -/
inductive HelpStyle where
  | command
  | option
deriving DecidableEq, Repr

/-- Joins two paragraphs, unless there is nothing before the second. -/
def joinText (gap before after : String) : String :=
  if before.isEmpty then after else before ++ gap ++ after

/-- The link with its title. A blank label is replaced by a common title. -/
def linkText (style : HelpStyle) (d : Documentation) : String :=
  match style with
  | .command => (if Text.isBlankText d.label then "Related Links" else d.label) ++ ":\n  " ++ d.link
  | .option => (if Text.isBlankText d.label then "See" else d.label) ++ ": " ++ d.link

/-- Documentation as help, with more lines after the description. -/
def helpText (style : HelpStyle) (d : Documentation) (more : List String) : String :=
  let text := more.foldl (joinText "\n") d.description
  if d.link.isEmpty then text
  else joinText (match style with | .command => "\n\n" | .option => "\n") text (linkText style d)

/-- The values that an option accepts. -/
def allowedValues (values : List String) : String :=
  "Allowed values: " ++ String.join (values.map ("\n  - " ++ ·))

end ClientForge.Command
