import JobOperator.Config.Images
import JobOperator.Job.Basic
import JobOperator.Text.Split

/-!
The containers that put source code into a pod before its own containers start: one for each place
the code comes from, then one that installs what the code depends on.
-/

namespace JobOperator

/-- The volume that holds source code. -/
def sourceVolume : String := "source"

/-- The volume that holds what source code depends on. -/
def dependencyVolume : String := "pip-packages"

/-- Where containers look for what source code depends on. -/
def sitePackages : String := "/root/.local/lib/python3.9/site-packages"

/-- A variable with a value. -/
def EnvVar.of (name value : String) : EnvVar := { name, value := some value }

namespace GitSource

/-- What the container that fetches a repository is told: a name and a password unless they are
empty, the repository, and that one fetch is enough. -/
def env (source : GitSource) : List EnvVar :=
  (if source.username.isEmpty then [] else [.of "GIT_SYNC_USERNAME" source.username]) ++
  (if source.password.isEmpty then [] else [.of "GIT_SYNC_PASSWORD" source.password]) ++
  [.of "GIT_SYNC_REPO" source.url, .of "GIT_SYNC_ONE_TIME" "true"]

/-- The container that fetches a repository. -/
def container (source : GitSource) (images : Images) : Container :=
  { name := "init-git"
    image := some images.gitSync
    env := some source.env
    volumeMounts := some [{ name := sourceVolume, mountPath := "/tmp/git" }] }

end GitSource

namespace ObjectStoreSource

/-- The name of the archive: its path after the last slash. -/
def fileName (source : ObjectStoreSource) : String :=
  match Text.splitLast? '/' source.path.toList with
  | some (_, file) => String.ofList file
  | none => source.path

/-- The commands that fetch and unpack an archive, as one line of a shell. The fields stand in it as
they are. -/
def script (source : ObjectStoreSource) : String :=
  String.intercalate " && "
    [ "mc alias set minio http://" ++ source.endpoint ++ "/ " ++ source.accessKey ++ " " ++
        source.secretKey,
      "mc cp minio/" ++ source.bucket ++ "/" ++ source.path ++ " ./" ++ source.fileName,
      "tar xvf " ++ source.fileName ]

/-- The container that fetches an archive. -/
def container (source : ObjectStoreSource) (images : Images) : Container :=
  { name := "init-minio"
    image := some images.objectStore
    command := some ["sh", "-c", source.script]
    volumeMounts := some [{ name := sourceVolume, mountPath := "/build" }] }

end ObjectStoreSource

namespace SyncSource

/-- The container that installs what source code depends on. -/
def dependencyContainer (images : Images) : Container :=
  { name := "init-pip"
    image := some images.dependencyInstaller
    env := some [.of "SOURCE_DIR" "/source"]
    volumeMounts := some
      [ { name := sourceVolume, mountPath := "/source" },
        { name := dependencyVolume, mountPath := sitePackages } ] }

/-- The containers that prepare source code, in the order they run. -/
def containers (source : SyncSource) (images : Images) : List Container :=
  (source.git.map (·.container images)).toList ++
  (source.objectStore.map (·.container images)).toList ++
  [dependencyContainer images]

end SyncSource

end JobOperator
