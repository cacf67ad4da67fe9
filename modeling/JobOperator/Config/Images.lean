/-! Images of the containers that fetch the source code of a job. -/

namespace JobOperator

/-- The image of each step that prepares the source code of a pod. -/
structure Images where
  gitSync : String := "registry.cn-zhangjiakou.aliyuncs.com/kube-ai/git-sync:v3.1.1"
  objectStore : String := "reg.real-ai.cn/launchpad/mc:latest"
  dependencyInstaller : String := "reg.real-ai.cn/launchpad/pip-install:latest"
  deriving DecidableEq, Repr

end JobOperator
