import S5.Fs.Collect
import S5.Fs.Gc
import S5.Fuse.Write

/-!
# Garbage collections beside a mount

`blobs gc-local` (`s5_cli/src/cmd/blobs.rs`) is run by another process on the files of the mounted file
system and on its blob store. It reads the root as it was last saved; here it runs between two calls of
the mount.
-/

open Std Fs

namespace Fuse

/-- A call of the mount, or a collection; `paths` are those that the blob store lists. -/
inductive Event (β : Type) where
  | call (c : Call)
  | gcLocal (snapshots : Option β) (pins : Pins) (dryRun : Bool) (paths : List String)

namespace S5Fs

variable {β σ : Type} [DecidableEq β] (env : Env β) (order : GroupOrder) {benv : Blobs.BlobEncoding}
  (codec : Blobs.PathDecoding benv) (rodeo : Interner String σ) (fuel : Nat)

omit [DecidableEq β] in
/-- The blob store after a collection. An error ends the command. -/
def gcLocal (m : S5Fs β σ) (snapshots : Option β) (pins : Pins) (dryRun : Bool)
    (paths : List String) : S5Fs β σ :=
  match Fs.Gc.collectFsReachableHashes env ⟨m.tree.fs.world.rootFile, snapshots, m.tree.fs.world.store⟩
    none with
  | .error _ => m
  | .ok reachable =>
    match Gc.gcStore reachable pins dryRun codec m.store paths with
    | .error _ => m
    | .ok (store, _) => { m with store }

/-- One event; a collection asks nothing of the mount. -/
def handle (m : S5Fs β σ) : Event β → S5Fs β σ
  | .call c => (m.run env order benv rodeo fuel c).1
  | .gcLocal snapshots pins dryRun paths => m.gcLocal env codec snapshots pins dryRun paths

end S5Fs

end Fuse
