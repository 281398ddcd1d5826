import Mathlib.Data.List.Basic

namespace SingBox.HealthTransport

def hasPrefix (s start : String) : Bool := start.toList.isPrefixOf s.toList

/-- The text before the first slash and the text after it, when there is a
slash and it does not stand first. -/
def cutSlash (path : String) : Option (String × String) :=
  let head := path.toList.takeWhile (· ≠ '/')
  let rest := path.toList.dropWhile (· ≠ '/')
  if head ≠ [] ∧ rest ≠ [] then some (String.ofList head, String.ofList rest.tail) else none

def containsSlash (path : String) : Bool := path.toList.contains '/'

def normalizeHealthTransportPath (path : String) : String :=
  if path = "tcp" then "tcp/any"
  else if path = "udp" then "udp_data/any"
  else if path = "udp_dns" then "udp_dns/any"
  else if path = "udp_data" then "udp_data/any"
  else path

def transportLedgerKey (transport : String) : String :=
  if normalizeHealthTransportPath transport ≠ "" then normalizeHealthTransportPath transport else transport

def splitHealthTransport (path : String) : String × String :=
  if path = "tcp" then ("tcp", "")
  else if path = "udp" then ("udp_data", "")
  else if path = "udp_dns" ∨ path = "udp_data" then (path, "")
  else (cutSlash path).getD (path, "")

def dualStackFamilyPaths (path : String) : Option (String × String) :=
  if path = "tcp" ∨ path = "tcp/any" then some ("tcp/ipv4", "tcp/ipv6")
  else if path = "udp_dns/any" then some ("udp_dns/ipv4", "udp_dns/ipv6")
  else if path = "udp" ∨ path = "udp/any" ∨ path = "udp_data/any" then some ("udp_data/ipv4", "udp_data/ipv6")
  else none

def legacyTransport (transport : String) : Option String :=
  (cutSlash transport).map fun p => if hasPrefix p.1 "udp_" then "udp" else p.1

structure ServiceContext where
  id : String
  transport : String
  healthTransport : String
  deriving DecidableEq

def serviceHealthTransport (service : ServiceContext) : String :=
  if service.healthTransport ≠ "" then service.healthTransport else service.transport

end SingBox.HealthTransport
