import ObjectStorage.Config.Validation
import ObjectStorage.Client
import ObjectStorage.S3.Buckets
import ObjectStorage.S3.Exchange

/-! # Stores

The store of a configuration: all its buckets behind one executor with its decorators, and the client
of that store.
-/
namespace ObjectStorage.S3

variable {σ : Type}

/-- The buckets of a configuration as one store. Requests are signed for a day. -/
def store (c : StorageConfig) (chain : Http.Chain σ) (day : String) (base : Http.Executor σ) : Backend σ :=
  Buckets.backend c.bucketNames (bucket c day (chain.wrap base)) Backend.countless

def client (c : StorageConfig) (chain : Http.Chain σ) (day : String) (base : Http.Executor σ) : Client σ :=
  { retry := c.retry, hedging := c.hedging, maxPages := c.listMaxPages, backend := store c chain day base }

end ObjectStorage.S3
