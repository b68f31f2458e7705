/-!
The rules that a Dockerfile is checked against, and what a check finds.
-/

namespace Dockerfile

/-! ### Rules

Each has a code, under which it is found again (`ofCode?_code`), and a text that explains it.
-/

inductive Rule where
  /-- A base image without a tag, or with the moving tag `latest`. -/
  | unpinnedBase
  /-- A port is exposed and nothing checks the health of the service. -/
  | missingHealthcheck
  /-- A port is exposed without its protocol. -/
  | portWithoutProtocol
  /-- No metadata at all. -/
  | missingLabel
  /-- A command is run in the empty image. -/
  | runInScratch
  /-- Files are copied from a stage that no FROM names. -/
  | unknownStage
  /-- A command is given in shell form. -/
  | shellForm
  /-- A working directory that is not absolute. -/
  | relativeWorkdir
  /-- Packages are installed from lists that may be stale. -/
  | installWithoutUpdate
  /-- Several RUNs in a row. -/
  | consecutiveRuns
  /-- Package lists are left in the layer. -/
  | uncleanedInstall
  /-- Everything is copied before the dependencies are installed. -/
  | earlyBroadCopy
  /-- A build tool is installed. -/
  | unneededPackage
  /-- All packages are upgraded. -/
  | upgrade
  /-- Everything is copied. -/
  | broadCopy
  /-- Package lists are updated more than once. -/
  | repeatedUpdate
  /-- ADD where COPY would do. -/
  | addUsed
  /-- The container runs as root. -/
  | rootUser
  /-- A variable looks as if it held a secret. -/
  | secretInEnv
  /-- Files are copied as root after the user was switched. -/
  | copyWithoutOwner
  /-- The registry has a newer patch version of the base image. -/
  | newerTag
  deriving DecidableEq, Repr

namespace Rule

/-- Every rule, in the order in which they are checked. -/
def all : List Rule :=
  [.unpinnedBase, .missingHealthcheck, .portWithoutProtocol, .missingLabel, .runInScratch,
   .unknownStage, .shellForm, .relativeWorkdir, .installWithoutUpdate, .consecutiveRuns,
   .uncleanedInstall, .earlyBroadCopy, .unneededPackage, .upgrade, .broadCopy, .repeatedUpdate,
   .addUsed, .rootUser, .secretInEnv, .copyWithoutOwner, .newerTag]

def code : Rule → String
  | .unpinnedBase => "BP001"
  | .missingHealthcheck => "BP002"
  | .portWithoutProtocol => "BP003"
  | .missingLabel => "BP004"
  | .runInScratch => "BP005"
  | .unknownStage => "BP006"
  | .shellForm => "BP007"
  | .relativeWorkdir => "BP008"
  | .installWithoutUpdate => "BP009"
  | .consecutiveRuns => "PERF001"
  | .uncleanedInstall => "PERF002"
  | .earlyBroadCopy => "PERF003"
  | .unneededPackage => "PERF004"
  | .upgrade => "PERF005"
  | .broadCopy => "PERF006"
  | .repeatedUpdate => "PERF007"
  | .addUsed => "SEC001"
  | .rootUser => "SEC002"
  | .secretInEnv => "SEC003"
  | .copyWithoutOwner => "SEC004"
  | .newerTag => "REG001"

def ofCode? (s : String) : Option Rule :=
  all.find? (·.code == s)

/-- Why the rule asks for it. -/
def explanation : Rule → String
  | .unpinnedBase =>
    "Using 'latest' or no tag makes your builds non-deterministic. A new version of the " ++
      "image could be pushed at any time, potentially introducing breaking changes or " ++
      "vulnerabilities into your application."
  | .missingHealthcheck =>
    "When a port is exposed via 'EXPOSE', it implies a service is listening. Without a " ++
      "'HEALTHCHECK' instruction, Docker can only know if the container is running, not if " ++
      "the service inside it is actually healthy. Orchestration tools like Kubernetes or " ++
      "Docker Swarm use health checks to correctly manage traffic, restarts, and rolling " ++
      "deployments."
  | .portWithoutProtocol =>
    "While Docker defaults to TCP for exposed ports, explicitly stating the protocol " ++
      "(e.g., 'EXPOSE 80/tcp' or 'EXPOSE 53/udp') makes the Dockerfile unambiguous and " ++
      "serves as clearer documentation for developers maintaining the service."
  | .missingLabel =>
    "The 'LABEL' instruction adds key-value metadata to your image, such as maintainer " ++
      "info, version number, or a link to the source repository. This metadata is very " ++
      "useful for organizing and managing images in a professional or automated " ++
      "environment."
  | .runInScratch =>
    "The 'FROM scratch' instruction creates a completely empty image with no shell or any " ++
      "other binaries. Because of this, any 'RUN' command is guaranteed to fail as there is " ++
      "no shell (like /bin/sh) to execute it. You can only use instructions like COPY or " ++
      "CMD in a scratch image."
  | .unknownStage =>
    "The '--from' flag in a 'COPY' or 'ADD' instruction must reference a stage name that " ++
      "was previously defined using 'FROM <image> AS <stage_name>'. Referring to a stage " ++
      "that does not exist is a syntax error that will cause the Docker build to fail " ++
      "immediately."
  | .shellForm =>
    "The 'shell form' of CMD or ENTRYPOINT (e.g., 'CMD my-app --arg') runs your command " ++
      "inside a shell, which can prevent OS signals like SIGTERM from reaching your " ++
      "application. This can lead to containers that do not shut down gracefully. The 'exec " ++
      "form' (e.g., 'CMD [\"my-app\", \"--arg\"]') is the recommended best practice as it " ++
      "handles signals correctly."
  | .relativeWorkdir =>
    "Using a relative path with 'WORKDIR' can be ambiguous and lead to unexpected " ++
      "behavior depending on the preceding instructions. Always using an absolute path (one " ++
      "that starts with '/') makes your Dockerfile more reliable, predictable, and easier " ++
      "for other developers to understand."
  | .installWithoutUpdate =>
    "Base images often have outdated package lists. Running 'apt-get install' without " ++
      "first running 'apt-get update' in the same command can lead to build failures if the " ++
      "package manager cannot locate the requested packages. Combining them with '&&' " ++
      "ensures the package lists are always fresh for the installation step."
  | .consecutiveRuns =>
    "Each RUN command in a Dockerfile creates a new layer in the Docker image. " ++
      "Consolidating multiple RUN commands into a single one using '&&' reduces the number " ++
      "of layers, resulting in a smaller and potentially faster image."
  | .uncleanedInstall =>
    "Package managers like 'apt-get' leave behind a cache of downloaded package lists in " ++
      "'/var/lib/apt/lists/'. If this cache is not removed in the same RUN command that " ++
      "performed the installation, it gets baked into the image layer, needlessly " ++
      "increasing its size by several megabytes."
  | .earlyBroadCopy =>
    "The Docker build cache works layer by layer. If you 'COPY' your entire source code " ++
      "before installing dependencies, any change to any file will invalidate the cache for " ++
      "the slow dependency installation step. You should first copy only the dependency " ++
      "manifest (e.g., requirements.txt), install dependencies, and then copy the rest of " ++
      "your source code."
  | .unneededPackage =>
    "Installing build tools or utilities like 'git', 'gcc', or 'curl' increases the size " ++
      "and attack surface of your final production image. These packages are often only " ++
      "needed to build your application. Use a multi-stage build to compile assets or " ++
      "dependencies in a temporary 'builder' stage, then copy only the necessary artifacts " ++
      "to a clean final stage."
  | .upgrade =>
    "Running 'apt-get upgrade' makes your Docker build non-deterministic. It can pull in " ++
      "different package versions each time the image is built, potentially introducing " ++
      "breaking changes unexpectedly. Instead of upgrading all packages, you should install " ++
      "specific, pinned versions of the packages your application requires."
  | .broadCopy =>
    "Using a broad 'COPY . .' command copies every file from your build context, " ++
      "including files that don't affect your application like READMEs or the .git folder " ++
      "(if not ignored). Any change to any of these files will invalidate this layer's " ++
      "cache and trigger a rebuild of all subsequent layers. It is better to be specific " ++
      "and copy only the necessary directories (e.g., 'COPY src/ /app/src')."
  | .repeatedUpdate =>
    "Calling 'apt-get update' multiple times in a Dockerfile is inefficient. The package " ++
      "lists only need to be updated once before the relevant 'apt-get install' commands. " ++
      "Each redundant call slows down the build and can add unnecessary network overhead."
  | .addUsed =>
    "The 'ADD' instruction has magic features like remote URL downloads and automatic " ++
      "tarball extraction. This can introduce security vulnerabilities if the source is " ++
      "compromised. 'COPY' is more transparent and safer as it only copies local files."
  | .rootUser =>
    "Running a container as the 'root' user is a security risk. It violates the Principle " ++
      "of Least Privilege. If an attacker compromises your application, they will gain root " ++
      "access inside the container, making it easier to escalate their attack. Best " ++
      "practice is to create a dedicated non-root user and switch to it with the 'USER' " ++
      "instruction."
  | .secretInEnv =>
    "Setting secrets like passwords or API keys via 'ENV' is a major security risk. These " ++
      "values are stored in plain text within the image layers and can be easily viewed by " ++
      "anyone with access to the image using 'docker inspect'. Use build-time arguments " ++
      "with '--secret' mounts (for Docker BuildKit) or a runtime secret management system " ++
      "instead."
  | .copyWithoutOwner =>
    "When you use 'COPY' or 'ADD', the new files are owned by 'root' by default. If you " ++
      "have switched to a non-root user with 'USER', that user may not have the necessary " ++
      "permissions to read or write these files. Using the '--chown' flag ensures that the " ++
      "copied files are owned by the correct application user from the start, preventing " ++
      "potential runtime permission errors."
  | .newerTag =>
    "Queries Docker Hub to see if a higher patch version exists for the base image tag."

@[simp]
theorem ofCode?_code (r : Rule) : ofCode? r.code = some r := by
  cases r <;> decide

theorem mem_all (r : Rule) : r ∈ all := by
  cases r <;> decide

end Rule

/-! ### Findings -/

/-- What a check has found: the rule that is broken, the line, what is wrong there, how grave it is,
why it matters and how to mend it. -/
structure Finding where
  rule : Rule
  line : Int
  message : String
  severity : String := "warning"
  explanation : Option String := none
  suggestion : Option String := none
  deriving DecidableEq, Repr

end Dockerfile
