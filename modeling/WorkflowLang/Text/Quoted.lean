/-!
# Quoted text

String tokens keep their quotes.  Removing them drops one quote at the front
and, if there is one, one at the back: a string that was cut short at the end of
its line has no closing quote.
-/

namespace WorkflowLang
namespace Text

/-- The text between the quotes of a string token. -/
def unquote (text : String) : String :=
  match text.toList with
  | '"' :: inner =>
      if inner.getLast? = some '"' then String.ofList inner.dropLast
      else String.ofList inner
  | _ => text

end Text
end WorkflowLang
