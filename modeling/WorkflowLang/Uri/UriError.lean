/-!
# Errors in URIs
-/

namespace WorkflowLang

inductive UriError where
  /-- The text does not begin with a scheme and a colon. -/
  | noScheme
  | emptyHost
  | invalidDomainName
  | invalidHostCharacter
  | invalidService
  | invalidShortAddress
  | invalidLongAddress
  deriving DecidableEq, Inhabited, Repr

def UriError.message : UriError → String
  | .noScheme => "relative URL without a base"
  | .emptyHost => "empty host"
  | .invalidDomainName => "invalid international domain name"
  | .invalidHostCharacter => "invalid domain character"
  | .invalidService => "invalid port number"
  | .invalidShortAddress => "invalid IPv4 address"
  | .invalidLongAddress => "invalid IPv6 address"

end WorkflowLang
