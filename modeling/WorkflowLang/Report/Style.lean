/-!
# Styled text in terminals

A style is a list of attributes that a terminal switches on with one control
sequence; another sequence resets all of them.  Text that resets attributes in
its middle gets the style again behind each reset.
-/

namespace WorkflowLang

/-- The styles of reports and of other output.  The colors are bold, except for
the one that sets off names. -/
inductive Style where
  | bold
  | red
  | green
  | yellow
  | blue
  | cyan
  | name
  | dimmed
  deriving DecidableEq, Inhabited, Repr

namespace Style

/-- The character that begins a control sequence. -/
def escape : Char := Char.ofNat 0x1b

def attributes : Style → List Char
  | .bold => ['1']
  | .red => ['1', ';', '3', '1']
  | .green => ['1', ';', '3', '2']
  | .yellow => ['1', ';', '3', '3']
  | .blue => ['1', ';', '3', '4']
  | .cyan => ['1', ';', '3', '6']
  | .name => ['3', '6']
  | .dimmed => ['2']

def opening (style : Style) : List Char :=
  [escape, '['] ++ style.attributes ++ ['m']

/-- The sequence that resets all attributes. -/
def reset : List Char := [escape, '[', '0', 'm']

/-- Repeats an opening sequence behind every reset in a text. -/
def reopen (opening : List Char) : List Char → List Char
  | [] => []
  | '\x1b' :: '[' :: '0' :: 'm' :: rest =>
      reset ++ opening ++ reopen opening rest
  | character :: rest => character :: reopen opening rest

/-- A text in a style, or as it is where there are no colors. -/
def paint (isColored : Bool) (style : Style) (text : String) : String :=
  if isColored then
    String.ofList (style.opening ++ reopen style.opening text.toList ++ reset)
  else text

end Style
end WorkflowLang
