import CidrCover.Terraform.Locals
import CidrCover.Text.Basic

/-!
# Configurations

A configuration names sources of CIDR entries, and says how many blocks may come out of them, into
which file they go and under which name. Sources can be switched off.

A configuration is valid if its budget is not zero, its variable is an identifier, and its sources
have different names that are not blank. `Config.check` reports the first violation: of the budget,
then of the variable, then of the sources in their order. `Config.builtIn` applies where no
configuration says otherwise: sixty blocks, from two sources of published ranges.
-/

namespace CidrCover

/-- A named group of entries. -/
structure Source where
  name : String
  enabled : Bool
  cidrs : List String
  deriving DecidableEq, Repr

/-- What is to be aggregated, and where the result goes. -/
structure Config where
  maxBlocks : Nat
  outputFile : String
  variableName : String
  sources : List Source
  deriving DecidableEq, Repr

namespace Config

/-- The entries of the enabled sources, in the order of the configuration. -/
def enabledCidrs (c : Config) : List String :=
  (c.sources.filter Source.enabled).flatMap Source.cidrs

/-- The names of the enabled sources, in the order of the configuration. -/
def enabledSources (c : Config) : List String :=
  (c.sources.filter Source.enabled).map Source.name

end Config

/-! ### Checks -/

/-- A budget has to allow at least one block. -/
def checkMaxBlocks (n : Nat) : Except Fault Unit :=
  if n < 1 then .error .zeroTarget else .ok ()

/-- Names of sources must not be blank and must differ from each other and from those seen. -/
def checkSources (seen : List String) : List Source → Except Fault Unit
  | [] => .ok ()
  | s :: rest =>
    if (Text.trim s.name.toList).isEmpty then .error .blankSourceName
    else if seen.contains s.name then .error (.duplicateSourceName s.name)
    else checkSources (s.name :: seen) rest

/-- Checks a configuration. -/
def Config.check (c : Config) : Except Fault Unit := do
  checkMaxBlocks c.maxBlocks
  checkVariable c.variableName
  checkSources [] c.sources

/-! ### The built-in configuration -/

/-- Published ranges of Meta. -/
def metaRanges : List String :=
   ["129.134.0.0/19", "66.220.144.0/20", "34.94.18.0/25", "35.192.199.128/25", "163.114.128.0/20",
    "157.240.128.0/18", "102.221.188.0/22", "31.13.96.0/19", "129.134.96.0/20", "18.190.96.139/32",
    "185.60.216.0/22", "102.132.112.0/20", "129.134.64.0/20", "157.240.192.0/18", "185.89.216.0/22",
    "35.239.7.131/32", "31.13.64.0/19", "204.15.20.0/22", "157.240.0.0/19", "179.60.192.0/22",
    "103.4.96.0/22", "69.63.176.0/20", "74.119.76.0/22", "163.70.128.0/17", "157.240.64.0/19",
    "69.171.224.0/19", "173.252.64.0/18", "129.134.80.0/20", "173.252.64.0/22", "147.75.208.0/20",
    "199.201.64.0/22", "66.111.48.0/22", "157.240.32.0/19", "163.77.128.0/17", "34.82.178.0/25",
    "129.134.32.0/19", "31.13.24.0/21", "45.64.40.0/22", "129.134.128.0/17", "102.132.96.0/20"]

/-- Published ranges of AWS. -/
def awsRanges : List String :=
   ["13.248.16.0/25", "13.248.48.0/25", "15.248.48.0/25", "15.248.54.236/31", "15.248.64.0/25",
    "15.248.70.236/31", "27.0.3.144/29", "27.0.3.152/29", "52.46.80.0/25", "52.46.208.0/25",
    "52.46.249.224/29", "52.46.249.248/29", "52.82.200.0/25", "52.94.36.0/25", "52.94.84.0/25",
    "52.94.133.128/25", "52.94.133.128/30", "52.94.133.136/30", "52.95.4.0/25", "52.95.75.0/25",
    "52.119.144.0/25", "54.222.61.32/28", "54.239.6.176/29", "54.239.6.184/29", "54.239.119.0/25",
    "54.240.193.0/29", "54.240.193.128/29", "54.240.196.160/27", "54.240.196.160/28",
    "54.240.196.176/28", "54.240.197.224/28", "54.240.198.32/29", "54.240.199.96/28",
    "54.240.217.8/29", "54.240.217.16/29", "69.157.200.212/32", "69.165.90.4/32", "69.165.90.12/32",
    "70.232.80.0/25", "70.232.112.0/25", "72.21.196.64/29", "72.21.198.64/29", "99.77.16.0/25",
    "99.77.48.0/25", "99.78.144.128/25", "99.78.200.0/25", "99.78.232.0/25", "99.82.144.0/25",
    "99.87.8.0/25", "104.153.113.16/28", "104.153.114.16/28", "177.72.241.16/29",
    "177.72.242.16/29", "204.246.162.32/28", "205.251.233.48/29", "205.251.233.104/29",
    "205.251.233.176/29", "205.251.233.232/29", "205.251.237.64/28", "205.251.237.96/28"]

/-- The built-in configuration. -/
def Config.builtIn : Config where
  maxBlocks := 60
  outputFile := "pet_instances/gh_sg.tf"
  variableName := "external_k8s_cidr_ipv4"
  sources := [⟨"meta", true, metaRanges⟩, ⟨"aws", true, awsRanges⟩]

end CidrCover
