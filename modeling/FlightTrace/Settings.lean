/-! Settings of the indexes. -/
namespace FlightTrace

structure Settings where
  /-- How long to wait for a bucket, in milliseconds. -/
  lockTimeout : Nat := 250
  /-- The width of a time segment, in seconds. -/
  bucketWidth : Int := 3600
  /-- How many keys a scan examines before it asks whether it has been cancelled. -/
  cancelInterval : Nat := 1024
deriving DecidableEq

end FlightTrace
