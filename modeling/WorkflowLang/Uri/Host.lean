import WorkflowLang.Uri.DomainName
import WorkflowLang.Uri.NetworkAddress
import WorkflowLang.Uri.PercentEncoding
import WorkflowLang.Uri.UriError

/-!
# Hosts

The host of a URI is a domain name, the address of a machine, or, where the
scheme has rules of its own, any text.
-/

namespace WorkflowLang

inductive Host where
  | missing
  /-- A domain name, or any other text. -/
  | name (text : String)
  | shortAddress (number : Nat)
  | longAddress (parts : List Nat)
  deriving DecidableEq, Inhabited, Repr

namespace Host

def text : Host → String
  | .missing => ""
  | .name text => text
  | .shortAddress number => NetworkAddress.shortText number
  | .longAddress parts => "[" ++ NetworkAddress.longText parts ++ "]"

def ofBracketed (inner : List Char) : Except UriError Host :=
  if inner.getLast? = some ']' then
    match NetworkAddress.long? inner.dropLast with
    | some parts => .ok (.longAddress parts)
    | none => .error .invalidLongAddress
  else .error .invalidLongAddress

/-- Reads a domain name or an address. -/
def ofDomain (text : List Char) : Except UriError Host :=
  match text with
  | '[' :: inner => ofBracketed inner
  | _ =>
      match (Percent.decode? text).bind DomainName.ascii? with
      | none => .error .invalidDomainName
      | some domain =>
          if domain.isEmpty then .error .emptyHost
          else if NetworkAddress.endsInNumber domain then
            match NetworkAddress.short? domain with
            | some number => .ok (.shortAddress number)
            | none => .error .invalidShortAddress
          else .ok (.name (String.ofList domain))

def isForbidden (character : Char) : Bool :=
  (Char.ofNat 0 :: "\t\n\r #/:<>?@[\\]^|".toList).contains character

/-- Reads a host for a scheme that has rules of its own. -/
def ofText (text : List Char) : Except UriError Host :=
  match text with
  | [] => .ok .missing
  | '[' :: inner => ofBracketed inner
  | _ =>
      if text.any isForbidden then .error .invalidHostCharacter
      else .ok (.name (String.ofList (Percent.encode [] text)))

end Host
end WorkflowLang
