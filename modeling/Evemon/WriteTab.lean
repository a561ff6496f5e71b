import Evemon.PluginTracing

-- One write log tab with its descendants.
namespace Evemon.WriteTab

open Plugins

structure Tab where
  log : WriteLog := {}
  includeDescendants : Bool := false
  index : Nat := 0
  capacity : Nat := 0

def subscribeDescendant (tab : Tab) (pid : UInt32) (granted : Bool) : List ServiceCall × Tab :=
  if pid ∈ tab.log.descendants then ([], tab)
  else
    let grown := if tab.capacity = 0 then 8 else 2 * tab.capacity
    let added := { tab.log with descendants := tab.log.descendants ++ [pid] }
    (subscribeCalls tab.log pid,
      if tab.log.descendants.length < tab.capacity then { tab with log := added }
      else if granted then { tab with log := added, capacity := grown }
      else tab)

def subscribeDescendants (tab : Tab) : List (UInt32 × Bool) → List ServiceCall × Tab
  | [] => ([], tab)
  | (pid, granted) :: rest =>
    let one := subscribeDescendant tab pid granted
    let others := subscribeDescendants one.2 rest
    (one.1 ++ others.1, others.2)

def pluginUpdate (sel : UInt32) (descendants : List (UInt32 × Bool)) (tab : Tab) : List ServiceCall × Tab :=
  let selected := onProcessSelected tab.index sel tab.log
  let moved := { tab with log := selected.2 }
  if moved.includeDescendants && (moved.log.stdout || moved.log.stderr) then
    let others := subscribeDescendants moved descendants
    (selected.1 ++ others.1, others.2)
  else (selected.1, moved)

def onCheckDescendantsToggled (on : Bool) (tab : Tab) : List ServiceCall × Tab :=
  let toggled := { tab with includeDescendants := on }
  if on then ([], toggled)
  else
    let unsubscribed := unsubscribeAllDescendants toggled.log
    (unsubscribed.1, { toggled with log := unsubscribed.2 })

inductive TabEvent where
  | processSelected (sel : UInt32)
  | comboChanged (index : Nat)
  | descendantsToggled (on : Bool)
  | update (sel : UInt32) (descendants : List (UInt32 × Bool))
  | clear
  | destroy

def handle (tab : Tab) : TabEvent → List ServiceCall × Option Tab
  | .processSelected sel =>
    let selected := onProcessSelected tab.index sel tab.log
    (selected.1, some { tab with log := selected.2 })
  | .comboChanged index =>
    let changed := onComboChanged index tab.log
    (changed.1, some { tab with log := changed.2, index })
  | .descendantsToggled on =>
    let toggled := onCheckDescendantsToggled on tab
    (toggled.1, some toggled.2)
  | .update sel descendants =>
    let updated := pluginUpdate sel descendants tab
    (updated.1, some updated.2)
  | .clear =>
    let cleared := clearCurrentPid tab.log
    (cleared.1, some { tab with log := cleared.2 })
  | .destroy => ((clearCurrentPid tab.log).1, none)

end Evemon.WriteTab
