import TapeMachine.Text.Blank

/-!
# Addresses to listen on

An address is a host and a service with a colon between them; a host that holds colons itself
stands in brackets. The service is a number or a well-known name.
-/

namespace TapeMachine.Command

/-- Why an address cannot be listened on. -/
inductive AddressError where
  | missingService (address : String)
  | manyColons (address : String)
  | openBracket (address : String)
  | strayOpening (address : String)
  | strayClosing (address : String)
  | badService (service : String)
  | unknownService (service : String)
deriving DecidableEq

namespace AddressError

/-- A complaint about an address or a part of it; about an empty text only the complaint is left. -/
def about (address complaint : String) : String :=
  if address == "" then complaint else "address " ++ address ++ ": " ++ complaint

/-- The wording of each error. -/
def message : AddressError → String
  | .missingService a => "listen tcp: " ++ about a "missing port in address"
  | .manyColons a => "listen tcp: " ++ about a "too many colons in address"
  | .openBracket a => "listen tcp: " ++ about a "missing ']' in address"
  | .strayOpening a => "listen tcp: " ++ about a "unexpected '[' in address"
  | .strayClosing a => "listen tcp: " ++ about a "unexpected ']' in address"
  | .badService p => "listen tcp: " ++ about p "invalid port"
  | .unknownService p => "listen tcp: lookup tcp/" ++ p ++ ": unknown port"

end AddressError

namespace Address

/-- The services with a number of their own. -/
def services : List String :=
  ["domain", "ftp", "ftps", "gopher", "http", "https", "imap2", "imap3", "imaps", "pop3", "pop3s",
    "smtp", "submissions", "ssh", "telnet"]

/-- What is wrong with a service. An empty one is chosen freely. -/
def serviceFault? (service : List Char) : Option AddressError :=
  let text := String.ofList service
  let (negative, digits) := match service with
    | '-' :: ds => (true, ds)
    | '+' :: ds => (false, ds)
    | ds => (false, ds)
  if service.isEmpty then none
  else if digits.all (fun c => '0' ≤ c && c ≤ '9') then
    let n := digits.foldl (fun n c => n * 10 + (c.toNat - 48)) 0
    if 65535 < n || (negative && 0 < n) then some (.badService text) else none
  else if services.contains (String.ofList (service.map Char.toLower)) then none
  else some (.unknownService text)

/-- What is left of a text behind its last colon, and what is before it. -/
def atLastColon? (cs : List Char) : Option (List Char × List Char) :=
  match cs.reverse.dropWhile (· != ':') with
  | [] => none
  | _ :: host => some (host.reverse, (cs.reverse.takeWhile (· != ':')).reverse)

/-- What is wrong with an address. -/
def fault? (address : String) : Option AddressError :=
  match atLastColon? address.toList with
  | none => some (.missingService address)
  | some (host, service) =>
    match host with
    | '[' :: inner =>
      match inner.dropWhile (· != ']') with
      | [] =>
        if service.contains ']' then some (.missingService address) else some (.openBracket address)
      | _ :: ':' :: _ => some (.manyColons address)
      | _ :: _ :: _ => some (.missingService address)
      | [_] =>
        if inner.contains '[' || service.contains '[' then some (.strayOpening address)
        else if service.contains ']' then some (.strayClosing address)
        else serviceFault? service
    | _ =>
      if host.contains ':' then some (.manyColons address)
      else if host.contains '[' || service.contains '[' then some (.strayOpening address)
      else if host.contains ']' || service.contains ']' then some (.strayClosing address)
      else serviceFault? service

end Address

end TapeMachine.Command
