import NetworkLayers.Net.Routes
import NetworkLayers.Lib.Grid

/-!
# The tables of the hosts and of the links (project.c, config.h)

`hosts` and `links` are numbered from 0, the hosts from 1. `getmtu` and `findhost` take numbers of hosts, `config_link` takes places of
the array.
-/

namespace NetworkLayers

/-- `host_t`. -/
structure Host where
  num : Nat
  port : Nat
  ipAddr : Nat
  deriving DecidableEq, Repr

/-- `links`: the MTU of the link between two hosts, -1 where there is none. -/
abbrev Links := HostIndex → HostIndex → Int

/-- `hosts`. -/
abbrev Hosts := HostIndex → Host

/-- `initlinks`: no link. -/
def initlinks : Links := fun _ _ => -1

/-- `hosts` at the start of the program, as static storage. -/
def staticHosts : Hosts := fun _ => { num := 0, port := 0, ipAddr := 0 }

/-- `findhost`: the entry for a host; `none` is one beyond the array. -/
def findhost (hosts : Hosts) (num : Nat) : Option Host := (Grid.place maxHosts ((num : Int) - 1)).map hosts

/-- `getmtu`: the MTU between two hosts; `none` is a read beyond the array. -/
def getmtu (links : Links) (first second : Nat) : Option Int := Grid.read links ((first : Int) - 1) ((second : Int) - 1)

/-- `config_link`: both directions of a link; `none` is a write beyond the array. -/
def configLink (links : Links) (source dest mtu : Int) : Option Links := Grid.writeBoth links source dest mtu

theorem hostNum_sub_one (i : HostIndex) : ((hostNum i : Nat) : Int) - 1 = (i.val : Int) := by
  unfold hostNum
  omega

@[simp] theorem getmtu_hostNum (links : Links) (i j : HostIndex) : getmtu links (hostNum i) (hostNum j) = some (links i j) := by
  rw [getmtu, hostNum_sub_one, hostNum_sub_one, Grid.read_val]

@[simp] theorem findhost_hostNum (hosts : Hosts) (i : HostIndex) : findhost hosts (hostNum i) = some (hosts i) := by
  rw [findhost, hostNum_sub_one, Grid.place_val]
  rfl

end NetworkLayers
