import SeriesRegion.Binary.Entry
import SeriesRegion.Plan

/-!
# The layout of plans
-/

namespace SeriesRegion.Binary

namespace Format

def planned {π : Type} (f : Format π) : Format (Planned π) :=
  (text.pair (word64.option.pair f)).imap (fun (id, index, body) => ⟨id, index, body⟩)
    (fun i => (i.planId, i.searchIndex, i.body))

def group {π : Type} (f : Format π) : Format (Group π) :=
  (text.pair (word64.option.pair (text.pair (word64.list.pair (planned f).list)))).imap
    (fun (id, index, device, positions, items) => ⟨id, index, device, positions, items⟩)
    (fun g => (g.planId, g.searchIndex, g.device, g.positions, g.items))

def command : Format Command :=
  variants 5
    (fun
      | .row i => (0, (planned row).write i)
      | .tablet i => (1, (planned tablet).write i)
      | .tablets g => (2, (group tablet).write g)
      | .rows g => (3, (group row).write g)
      | .rowsOfOneDevice g => (4, (group row).write g))
    (fun
      | 0 => some ((planned row).read.map .row)
      | 1 => some ((planned tablet).read.map .tablet)
      | 2 => some ((group tablet).read.map .tablets)
      | 3 => some ((group row).read.map .rows)
      | 4 => some ((group row).read.map .rowsOfOneDevice)
      | _ => none)

def fragment : Format Fragment :=
  (text.pair (text.pair (text.pair (int64.pair int64)))).imap
    (fun (id, device, measurement, start, stop) => ⟨id, device, measurement, start, stop⟩)
    (fun f => (f.id, f.device, f.measurement, f.start, f.stop))

def plan : Format Plan :=
  variants 2
    (fun
      | .write c => (0, command.write c)
      | .fragment f => (1, fragment.write f))
    (fun
      | 0 => some (command.read.map .write)
      | 1 => some (fragment.read.map .fragment)
      | _ => none)

end Format

end SeriesRegion.Binary
